import Mathlib.Data.Finmap

/-!
# What the switch classes make of a trap

`snmp_parse_trap` of `bin/snmp_poller.pl` asks every switch class for the information of a
trap, and answers it if they agree. It compares one of them, the first in the order of a Perl
hash, with all the others. The test of the keys, `! %$answer ~~ %$other`, negates the first
hash before the match, which then asks whether the other one has the negation as a key.
-/

namespace ElanAgent.Snmp

/-- The information of a trap, by key. A value may be `undef`. -/
abbrev TrapInfo := Finmap fun _ : String => Option String

/-- The value under a key as a text. `undef` is the empty one, and so is what is missing. -/
def TrapInfo.text (info : TrapInfo) (key : String) : String :=
  ((info.lookup key).join).getD ""

/-- `{ trapType => 'unknown' }`. -/
def unknownTrap : TrapInfo := Finmap.singleton "trapType" (some "unknown")

/-- `! %$answer`, as a text. -/
def negation (answer : TrapInfo) : String := if answer = ∅ then "1" else ""

/-- The other information rejects the answer. -/
def Rejects (answer other : TrapInfo) : Prop :=
  negation answer ∈ other ∨ ∃ key ∈ answer.keys, answer.text key ≠ other.text key

instance (answer other : TrapInfo) : Decidable (Rejects answer other) :=
  inferInstanceAs (Decidable (_ ∨ _))

/-- `snmp_parse_trap`, for the classes that know the trap, in the order of their hash. -/
def snmpParseTrap : List (String × TrapInfo) → TrapInfo
  | [] => unknownTrap
  | [(_, info)] => info
  | (_, answer) :: others =>
    if ∃ other ∈ others, Rejects answer other.2 then unknownTrap else answer

/-- The information is about a trap of a known type. -/
def TrapInfo.Known (info : TrapInfo) : Prop := info.text "trapType" ≠ "unknown"

instance (info : TrapInfo) : Decidable info.Known := inferInstanceAs (Decidable (_ ≠ _))

/-- The classes that know a trap, with what they make of it. -/
structure TrapMatches where
  entries : List (String × TrapInfo)
  nodup : (entries.map Prod.fst).Nodup
  known : ∀ entry ∈ entries, entry.2.Known

namespace TrapMatches

/-- All classes make the same of the trap. -/
def Agree (m : TrapMatches) : Prop := ∀ a ∈ m.entries, ∀ b ∈ m.entries, a.2 = b.2

/-- What is asked of `snmp_parse_trap`: whatever the order, it answers a known trap exactly
if the classes agree, and then what they agree on. -/
structure Settled (m : TrapMatches) : Prop where
  order : ∀ e e', e.Perm m.entries → e'.Perm m.entries → snmpParseTrap e = snmpParseTrap e'
  known : ∀ e, e.Perm m.entries → ((snmpParseTrap e).Known ↔ m.entries ≠ [] ∧ m.Agree)
  common : ∀ e, e.Perm m.entries → m.Agree → ∀ entry ∈ m.entries, snmpParseTrap e = entry.2

/-- Another class rejects what the class makes of the trap. -/
def Rejected (m : TrapMatches) (first : String × TrapInfo) : Prop :=
  ∃ other ∈ m.entries, other ≠ first ∧ Rejects first.2 other.2

/-- The classes that agree have no empty key, and each of those that do not is rejected by
another one. -/
def Decided (m : TrapMatches) : Prop :=
  (m.Agree → ∀ entry ∈ m.entries, "" ∉ entry.2) ∧
    (¬m.Agree → ∀ first ∈ m.entries, m.Rejected first)

end TrapMatches

/-! ## One order -/

theorem not_known_unknownTrap : ¬unknownTrap.Known := by
  simp [TrapInfo.Known, TrapInfo.text, unknownTrap]

/-- Only the empty key makes an information reject itself. -/
theorem rejects_self {info : TrapInfo} : Rejects info info ↔ "" ∈ info := by
  unfold Rejects negation
  by_cases empty : info = ∅
  · simp [empty, Finmap.notMem_empty]
  · simp [empty]

section Order

variable {m : TrapMatches}

theorem parse_cons (first : String × TrapInfo) {others : List (String × TrapInfo)}
    (several : others ≠ []) : snmpParseTrap (first :: others) =
      if ∃ other ∈ others, Rejects first.2 other.2 then unknownTrap else first.2 := by
  obtain ⟨sc, answer⟩ := first
  cases others with
  | nil => exact absurd rfl several
  | cons other others => rfl

/-- With several classes, the first one of the order decides. -/
theorem parse_of_perm (several : 2 ≤ m.entries.length) {first : String × TrapInfo}
    {others : List (String × TrapInfo)} (perm : (first :: others).Perm m.entries) :
    (m.Rejected first → snmpParseTrap (first :: others) = unknownTrap) ∧
      (¬m.Rejected first → snmpParseTrap (first :: others) = first.2) := by
  have some : others ≠ [] := by
    rintro rfl
    have lengths := perm.length_eq
    simp only [List.length_singleton] at lengths
    omega
  have nodup : (first :: others).Nodup := perm.nodup_iff.mpr m.nodup.of_map
  have rejected : (∃ other ∈ others, Rejects first.2 other.2) ↔ m.Rejected first := by
    constructor
    · rintro ⟨other, hother, rejects⟩
      refine ⟨other, perm.mem_iff.mp (List.mem_cons_of_mem _ hother), ?_, rejects⟩
      rintro rfl
      exact (List.nodup_cons.mp nodup).1 hother
    · rintro ⟨other, hother, ne, rejects⟩
      exact ⟨other, (List.mem_cons.mp (perm.mem_iff.mpr hother)).resolve_left ne, rejects⟩
  rw [parse_cons first some]
  exact ⟨fun h => if_pos (rejected.mpr h), fun h => if_neg (mt rejected.mp h)⟩

/-- Any class may come first. -/
theorem exists_perm {first : String × TrapInfo} (hfirst : first ∈ m.entries) :
    ∃ others, (first :: others).Perm m.entries :=
  ⟨m.entries.erase first, (List.perm_cons_erase hfirst).symm⟩

theorem exists_first {e : List (String × TrapInfo)} (several : 2 ≤ m.entries.length)
    (perm : e.Perm m.entries) : ∃ first others, e = first :: others ∧ first ∈ m.entries := by
  cases e with
  | nil =>
    have lengths := perm.length_eq
    simp only [List.length_nil] at lengths
    omega
  | cons first others => exact ⟨first, others, rfl, perm.mem_iff.mp List.mem_cons_self⟩

theorem exists_other (several : 2 ≤ m.entries.length) {entry : String × TrapInfo}
    (hentry : entry ∈ m.entries) : ∃ other ∈ m.entries, other ≠ entry := by
  obtain ⟨others, perm⟩ := exists_perm hentry
  have nodup : (entry :: others).Nodup := perm.nodup_iff.mpr m.nodup.of_map
  cases others with
  | nil =>
    have lengths := perm.length_eq
    simp only [List.length_singleton] at lengths
    omega
  | cons other others =>
    refine ⟨other, perm.mem_iff.mp (by simp), ?_⟩
    rintro rfl
    exact (List.nodup_cons.mp nodup).1 List.mem_cons_self

/-! ## All orders -/

/-- Classes that agree reject each other for the empty key only. -/
theorem rejected_iff_of_agree (several : 2 ≤ m.entries.length) (agree : m.Agree)
    {entry : String × TrapInfo} (hentry : entry ∈ m.entries) :
    m.Rejected entry ↔ "" ∈ entry.2 := by
  rw [← rejects_self]
  constructor
  · rintro ⟨other, hother, -, rejects⟩
    rwa [agree other hother entry hentry] at rejects
  · intro rejects
    obtain ⟨other, hother, ne⟩ := exists_other several hentry
    exact ⟨other, hother, ne, by rwa [agree other hother entry hentry]⟩

theorem decided_of_settled (several : 2 ≤ m.entries.length) (settled : m.Settled) :
    m.Decided := by
  constructor
  · intro agree entry hentry empty
    obtain ⟨others, perm⟩ := exists_perm hentry
    have unknown := (parse_of_perm several perm).1
      ((rejected_iff_of_agree several agree hentry).mpr empty)
    have known := settled.common _ perm agree entry hentry
    exact not_known_unknownTrap (unknown ▸ known ▸ m.known entry hentry)
  · intro disagree first hfirst
    by_contra accepted
    obtain ⟨others, perm⟩ := exists_perm hfirst
    have answer := (parse_of_perm several perm).2 accepted
    exact disagree ((settled.known _ perm).mp (answer ▸ m.known first hfirst)).2

/-- What a decided trap is answered. -/
theorem parse_of_decided (several : 2 ≤ m.entries.length) (decided : m.Decided)
    {e : List (String × TrapInfo)} (perm : e.Perm m.entries) :
    (m.Agree → ∀ entry ∈ m.entries, snmpParseTrap e = entry.2) ∧
      (¬m.Agree → snmpParseTrap e = unknownTrap) := by
  obtain ⟨first, others, rfl, hfirst⟩ := exists_first several perm
  have answer := parse_of_perm several perm
  constructor
  · intro agree entry hentry
    have accepted := mt (rejected_iff_of_agree several agree hfirst).mp
      (decided.1 agree first hfirst)
    rw [answer.2 accepted, agree first hfirst entry hentry]
  · intro disagree
    exact answer.1 (decided.2 disagree first hfirst)

theorem settled_of_decided (several : 2 ≤ m.entries.length) (decided : m.Decided) :
    m.Settled := by
  have some : m.entries ≠ [] := by
    intro none
    simp [none] at several
  obtain ⟨entry, hentry⟩ := List.exists_mem_of_ne_nil _ some
  by_cases agree : m.Agree
  · have answer : ∀ e, e.Perm m.entries → snmpParseTrap e = entry.2 :=
      fun e perm => (parse_of_decided several decided perm).1 agree entry hentry
    refine ⟨fun e e' he he' => (answer e he).trans (answer e' he').symm, fun e perm => ?_,
      fun e perm agree => (parse_of_decided several decided perm).1 agree⟩
    rw [answer e perm]
    exact iff_of_true (m.known entry hentry) ⟨some, agree⟩
  · have answer : ∀ e, e.Perm m.entries → snmpParseTrap e = unknownTrap :=
      fun e perm => (parse_of_decided several decided perm).2 agree
    refine ⟨fun e e' he he' => (answer e he).trans (answer e' he').symm, fun e perm => ?_,
      fun e perm h => absurd h agree⟩
    rw [answer e perm]
    exact iff_of_false not_known_unknownTrap fun h => agree h.2

/-- A trap that one class knows at most. -/
theorem settled_of_length (few : m.entries.length ≤ 1) : m.Settled := by
  have orders : m.entries = [] ∨ ∃ entry, m.entries = [entry] := by
    rcases Nat.le_one_iff_eq_zero_or_eq_one.mp few with none | one
    · exact .inl (List.length_eq_zero_iff.mp none)
    · exact .inr (List.length_eq_one_iff.mp one)
  rcases orders with none | ⟨entry, only⟩
  · have order (e : List (String × TrapInfo)) (perm : e.Perm m.entries) : e = [] :=
      (none ▸ perm).eq_nil
    refine ⟨fun e e' he he' => by rw [order e he, order e' he'], fun e he => ?_,
      fun e he _ => by simp [none]⟩
    rw [order e he]
    exact iff_of_false not_known_unknownTrap fun h => h.1 none
  · have order (e : List (String × TrapInfo)) (perm : e.Perm m.entries) : e = [entry] :=
      List.perm_singleton.mp (only ▸ perm)
    have answer : snmpParseTrap [entry] = entry.2 := rfl
    refine ⟨fun e e' he he' => by rw [order e he, order e' he'], fun e he => ?_,
      fun e he _ => by simp [only, order e he, answer]⟩
    rw [order e he, answer]
    exact iff_of_true (m.known entry (by simp [only]))
      ⟨by simp [only], by simp [TrapMatches.Agree, only]⟩

/-- `snmp_parse_trap` does what it should exactly if one class knows the trap at most, or the
classes agree and have no empty key, or do not agree and each is rejected by another one. -/
theorem snmpParseTrap_settled_iff (m : TrapMatches) :
    m.Settled ↔ m.entries.length ≤ 1 ∨ m.Decided := by
  by_cases several : 2 ≤ m.entries.length
  · have many : ¬m.entries.length ≤ 1 := by omega
    rw [or_iff_right many]
    exact ⟨decided_of_settled several, settled_of_decided several⟩
  · have few : m.entries.length ≤ 1 := by omega
    exact iff_of_true (settled_of_length few) (.inl few)

end Order

/-- Two classes know a trap, and one of them tells a VLAN too. -/
def vlanKnownOnce : TrapMatches where
  entries := [("pf::Switch::Cisco", (Finmap.singleton "trapType" (some "up")).insert "trapIfIndex"
      (some "5")),
    ("pf::Switch::HP", ((Finmap.singleton "trapType" (some "up")).insert "trapIfIndex"
      (some "5")).insert "trapVlan" (some "3"))]
  nodup := by decide
  known := by decide +kernel

/-- The answer depends on the class that comes first. -/
theorem snmpParseTrap_order : ¬vlanKnownOnce.Settled := by
  intro settled
  have order := settled.order vlanKnownOnce.entries vlanKnownOnce.entries.reverse (.refl _)
    (List.reverse_perm _)
  exact absurd order (by decide +kernel)

end ElanAgent.Snmp
