import ElanAgent.Library.Dict
import ElanAgent.Value
import Mathlib.Data.String.Basic

/-!
# RADIUS requests and what is read off their texts

A request is a dictionary of attributes, in the order in which they came. An attribute that
came more than once has a list of values, of which `get` returns the last.

`extract_mac` and `extract_ssid` of `elan/freeradius/nac.py` read the beginning of a text by
a regular expression. No separator is a hexadecimal digit, so that their matches never have
to go back on a separator.
-/

namespace ElanAgent.Radius

/-- An attribute that a request has. -/
inductive Attribute where
  | one (value : Value)
  | list (values : List Value) (nonempty : values ≠ [])

namespace Attribute

/-- What `get` returns of the attribute. -/
def value : Attribute → Value
  | one value => value
  | list values nonempty => values.getLast nonempty

/-- `v if isinstance(v, list) else [v]`. -/
def values : Attribute → List Value
  | one value => [value]
  | list values _ => values

end Attribute

/-- `request_as_hash_of_values`. -/
abbrev Request := Dict String Attribute

/-- `request.get(key, None)`. -/
def Request.attribute (request : Request) (key : String) : Value :=
  ((request.get key).map Attribute.value).getD .none

/-! ## Hexadecimal digits -/

/-- `[a-f0-9]`, in any case. -/
def isHex (c : Char) : Bool :=
  c.isDigit || ('a' ≤ c && c ≤ 'f') || ('A' ≤ c && c ≤ 'F')

/-- `[.:-]`. -/
def isSeparator (c : Char) : Bool := c ∈ ['.', ':', '-']

/-- `[a-f0-9]{2}`, and what comes after it. -/
def hexPair : List Char → Option (List Char × List Char)
  | c :: d :: rest => if isHex c && isHex d then some ([c, d], rest) else none
  | _ => none

/-- `[.:-]?`. -/
def skipSeparator : List Char → List Char
  | c :: rest => if isSeparator c then rest else c :: rest
  | [] => []

/-- `n` pairs, with a separator before each of them or none. -/
def hexPairs : Nat → List Char → Option (List (List Char) × List Char)
  | 0, text => some ([], text)
  | n + 1, text => do
    let (pair, rest) ← hexPair (skipSeparator text)
    let (pairs, rest) ← hexPairs n rest
    pure (pair :: pairs, rest)

/-- The groups of a MAC at the beginning of a text, and what comes after them. -/
def matchMac (text : List Char) : Option (List (List Char) × List Char) := do
  let (pair, rest) ← hexPair text
  let (pairs, rest) ← hexPairs 5 rest
  pure (pair :: pairs, rest)

/-- `':'.join(groups).lower()`. -/
def joinMac (groups : List (List Char)) : String :=
  String.ofList ((List.intercalate [':'] groups).map Char.toLower)

/-- `extract_mac`, of a text. -/
def macOf (text : String) : Option String := (matchMac text.toList).map fun m => joinMac m.1

/-- `extract_ssid`, of a text: what follows a MAC and a colon, up to the end of the line. -/
def ssidOf (text : String) : Option String := do
  let (_, rest) ← matchMac text.toList
  match rest with
  | ':' :: rest =>
    let line := rest.takeWhile (· ≠ '\n')
    if line = [] then none else some (String.ofList line)
  | _ => none

/-! ## Canonical MACs -/

/-- A digit or a letter from `a` to `f`. -/
def isLowerHex (c : Char) : Bool := c.isDigit || ('a' ≤ c && c ≤ 'f')

/-- Six pairs of lower-case hexadecimal digits, with colons between them. -/
def IsMac (mac : String) : Prop :=
  ∃ groups : List (List Char), groups.length = 6 ∧
    (∀ g ∈ groups, g.length = 2 ∧ ∀ c ∈ g, isLowerHex c) ∧
    mac.toList = List.intercalate [':'] groups

/-- Every hexadecimal digit is an ASCII character. -/
theorem forall_isHex {P : Char → Prop}
    (ascii : ∀ n < 128, isHex (Char.ofNat n) → P (Char.ofNat n)) {c : Char} (h : isHex c) :
    P c := by
  have small : c.toNat < 128 := by
    simp only [isHex, Char.isDigit, Bool.or_eq_true, Bool.and_eq_true, decide_eq_true_eq] at h
    rcases h with (⟨-, upper⟩ | ⟨-, upper⟩) | ⟨-, upper⟩ <;>
      exact lt_of_le_of_lt (UInt32.le_iff_toNat_le.mp upper) (by decide)
  simpa using ascii c.toNat small (by simpa using h)

theorem isLowerHex_toLower {c : Char} (h : isHex c) : isLowerHex c.toLower :=
  forall_isHex (P := fun c => isLowerHex c.toLower) (by decide) h

theorem hexPair_spec {text pair rest : List Char} (h : hexPair text = some (pair, rest)) :
    pair.length = 2 ∧ ∀ c ∈ pair, isHex c := by
  unfold hexPair at h
  split at h
  · rename_i c d tail
    split at h
    · rename_i digits
      obtain ⟨rfl, -⟩ := Prod.mk.inj (Option.some.inj h)
      simpa using digits
    · cases h
  · cases h

theorem hexPairs_spec {n : Nat} {text : List Char} {pairs : List (List Char)} {rest : List Char}
    (h : hexPairs n text = some (pairs, rest)) :
    pairs.length = n ∧ ∀ g ∈ pairs, g.length = 2 ∧ ∀ c ∈ g, isHex c := by
  induction n generalizing text pairs rest with
  | zero =>
    obtain ⟨rfl, -⟩ := Prod.mk.inj (Option.some.inj h)
    simp
  | succ n ih =>
    obtain ⟨⟨pair, tail⟩, first, h⟩ := Option.bind_eq_some_iff.mp h
    obtain ⟨⟨others, tail'⟩, second, h⟩ := Option.bind_eq_some_iff.mp h
    obtain ⟨rfl, -⟩ := Prod.mk.inj (Option.some.inj h)
    obtain ⟨length, digits⟩ := ih second
    refine ⟨by simp [length], fun g hg => ?_⟩
    rcases List.mem_cons.mp hg with rfl | hg
    · exact hexPair_spec first
    · exact digits g hg

theorem matchMac_spec {text : List Char} {groups : List (List Char)} {rest : List Char}
    (h : matchMac text = some (groups, rest)) :
    groups.length = 6 ∧ ∀ g ∈ groups, g.length = 2 ∧ ∀ c ∈ g, isHex c := by
  obtain ⟨⟨pair, tail⟩, first, h⟩ := Option.bind_eq_some_iff.mp h
  obtain ⟨⟨others, tail'⟩, second, h⟩ := Option.bind_eq_some_iff.mp h
  obtain ⟨rfl, -⟩ := Prod.mk.inj (Option.some.inj h)
  obtain ⟨length, digits⟩ := hexPairs_spec second
  refine ⟨by simp [length], fun g hg => ?_⟩
  rcases List.mem_cons.mp hg with rfl | hg
  · exact hexPair_spec first
  · exact digits g hg

theorem map_intercalate {α β : Type} (f : α → β) (sep : List α) (xs : List (List α)) :
    (List.intercalate sep xs).map f = List.intercalate (sep.map f) (xs.map (List.map f)) := by
  induction xs with
  | nil => rfl
  | cons x xs ih =>
    cases xs with
    | nil => simp [List.intercalate]
    | cons y ys => simpa [List.intercalate] using ih

/-- What `extract_mac` returns is canonical. -/
theorem isMac_of_macOf {text mac : String} (h : macOf text = some mac) : IsMac mac := by
  obtain ⟨⟨groups, rest⟩, matched, rfl⟩ := Option.map_eq_some_iff.mp h
  obtain ⟨length, digits⟩ := matchMac_spec matched
  refine ⟨groups.map (List.map Char.toLower), by simpa using length, fun g hg => ?_, ?_⟩
  · obtain ⟨pair, hpair, rfl⟩ := List.mem_map.mp hg
    refine ⟨by simpa using (digits pair hpair).1, fun c hc => ?_⟩
    obtain ⟨d, hd, rfl⟩ := List.mem_map.mp hc
    exact isLowerHex_toLower ((digits pair hpair).2 d hd)
  · rw [joinMac, String.toList_ofList, map_intercalate]
    rfl

end ElanAgent.Radius
