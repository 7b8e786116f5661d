import ElanAgent.Library.Regex
import ElanAgent.Radius.Ports

/-!
# MACs and SSIDs at the beginning of a text

The expressions of `extract_mac` and `extract_ssid`, and what they find. No separator is a
hexadecimal digit, so that each has one way at most to match a text. A `Rendering` is a text
of six groups with any separators, or none, between them.
-/

namespace ElanAgent.Radius

open Regex

namespace Text

/-! ## The expressions -/

/-- `[a-f0-9]{2}`. The case of letters is ignored, and no other character is the same as one
of these then. -/
def digits : Regex := .seq (.one isHex) (.one isHex)

/-- `[.:-]?` -/
def separator : Regex := optional (.one isSeparator)

/-- One pair after the other, each of them after a separator or none. -/
def separated (pair : ℕ → Regex) : List ℕ → Regex
  | [] => .empty
  | i :: is => .seq separator (.seq (pair i) (separated pair is))

/-- The six pairs that both expressions begin with. -/
def sixPairs (pair : ℕ → Regex) : Regex := .seq (pair 1) (separated pair [2, 3, 4, 5, 6])

/-- The expression of `extract_mac`. -/
def macRegex : Regex := sixPairs fun i => .group (toString i) digits

/-- The expression of `extract_ssid`. -/
def ssidRegex : Regex :=
  .seq (sixPairs fun _ => digits) (.seq (.one (· = ':')) (.group "1" (.longest (· ≠ '\n'))))

/-- `extract_mac`, of a text. -/
def extractMac (string : String) : Option String :=
  if string = "" then none
  else (macRegex.first string.toList).map fun m => joinMac (m.groups.map Prod.snd)

/-- `extract_ssid`, of a text. -/
def extractSsid (string : String) : Option String :=
  if string = "" then none
  else (ssidRegex.first string.toList).bind fun m => (m.get "1").map String.ofList

/-! ## What they find -/

section Pairs

variable {text : List Char} {pair : ℕ → Regex} (label : ℕ → List Char → List (String × List Char))

theorem decides_digits : Decides digits fun text =>
    (hexPair text).map fun p => ⟨[], p.2⟩ := by
  intro text
  refine ((decides_one isHex).seq (decides_one isHex) text).trans (congrArg Option.toList ?_)
  rcases text with _ | ⟨c, _ | ⟨d, rest⟩⟩
  · rfl
  · by_cases hc : isHex c <;> simp [hexPair, hc]
  · by_cases hc : isHex c <;> by_cases hd : isHex d <;>
      simp [hexPair, hc, hd, Match.andThen]

theorem decides_group (i : ℕ) : Decides (.group (toString i) digits) fun text =>
    (hexPair text).map fun p => ⟨[(toString i, p.1)], p.2⟩ := by
  intro text
  refine (decides_digits.group (toString i) text).trans (congrArg Option.toList ?_)
  rcases text with _ | ⟨c, _ | ⟨d, rest⟩⟩
  · rfl
  · rfl
  · by_cases digits : isHex c && isHex d
    · have taken := named_append (toString i) [c, d] rest []
      simpa [hexPair, digits] using taken
    · simp [hexPair, digits]

theorem not_hex_of_separator {c : Char} (h : isSeparator c) : isHex c = false := by
  have cases : c = '.' ∨ c = ':' ∨ c = '-' := by simpa [isSeparator] using h
  rcases cases with rfl | rfl | rfl <;> rfl

theorem hexPair_separator {c : Char} (h : isSeparator c) (text : List Char) :
    hexPair (c :: text) = none := by
  cases text with
  | nil => rfl
  | cons d text => simp [hexPair, not_hex_of_separator h]

theorem hexPairs_succ (n : ℕ) (text : List Char) : hexPairs (n + 1) text =
    (hexPair (skipSeparator text)).bind fun p =>
      (hexPairs n p.2).map fun ps => (p.1 :: ps.1, ps.2) := by
  rw [hexPairs]
  rcases hexPair (skipSeparator text) with _ | ⟨p, rest⟩
  · rfl
  · simp only [Option.bind_eq_bind, Option.bind_some, Option.pure_def]
    rcases hexPairs n rest with _ | ⟨ps, rest⟩ <;> rfl

/-- Pairs that are found as `hexPair` does, with the groups that `label` makes of them. -/
theorem decides_separated
    (one : ∀ i, Decides (pair i) fun text =>
      (hexPair text).map fun p => ⟨label i p.1, p.2⟩) (is : List ℕ) :
    Decides (separated pair is) fun text =>
      (hexPairs is.length text).map fun p => ⟨(is.zipWith label p.1).flatten, p.2⟩ := by
  induction is with
  | nil => exact decides_empty
  | cons i is ih =>
    intro text
    have step := (decides_one isSeparator).optional_seq ((one i).seq ih) (fun text h => by
      cases text with
      | nil => cases h
      | cons c rest =>
        have sep : isSeparator c := by
          by_contra absent
          simp [absent] at h
        simp [hexPair_separator sep]) text
    refine step.trans (congrArg Option.toList ?_)
    have found (rest : List Char) :
        (((hexPair rest).map fun p => (⟨label i p.1, p.2⟩ : Match)).bind fun m =>
          ((hexPairs is.length m.rest).map fun p =>
            ⟨(is.zipWith label p.1).flatten, p.2⟩).map m.andThen) =
        ((hexPair rest).bind fun p =>
          (hexPairs is.length p.2).map fun ps => (p.1 :: ps.1, ps.2)).map fun p =>
            ⟨((i :: is).zipWith label p.1).flatten, p.2⟩ := by
      rcases hexPair rest with _ | ⟨p, rest⟩
      · rfl
      · simp only [Option.map_some, Option.bind_some]
        rcases hexPairs is.length rest with _ | ⟨ps, rest⟩ <;> rfl
    beta_reduce
    rw [List.length_cons, hexPairs_succ]
    cases text with
    | nil => exact found []
    | cons c rest =>
      by_cases sep : isSeparator c
      · have skip : skipSeparator (c :: rest) = rest := by simp [skipSeparator, sep]
        rw [skip, ← found rest]
        simp only [sep, if_true, map_andThen_nil]
      · have keep : skipSeparator (c :: rest) = c :: rest := by simp [skipSeparator, sep]
        rw [keep, ← found (c :: rest)]
        simp [sep]

theorem decides_sixPairs
    (one : ∀ i, Decides (pair i) fun text =>
      (hexPair text).map fun p => ⟨label i p.1, p.2⟩) :
    Decides (sixPairs pair) fun text => (matchMac text).map fun p =>
      ⟨([1, 2, 3, 4, 5, 6].zipWith label p.1).flatten, p.2⟩ := by
  intro text
  refine ((one 1).seq (decides_separated label one [2, 3, 4, 5, 6]) text).trans
    (congrArg Option.toList ?_)
  beta_reduce
  rw [matchMac]
  rcases hexPair text with _ | ⟨p, rest⟩
  · rfl
  · simp only [Option.map_some, Option.bind_some, Option.bind_eq_bind, Option.pure_def,
      List.length_cons, List.length_nil]
    rcases hexPairs 5 rest with _ | ⟨ps, rest⟩ <;> rfl

end Pairs

/-- Groups that hold a pair each. -/
theorem values_zipWith (name : ℕ → String) {is : List ℕ} {gs : List (List Char)}
    (length : gs.length = is.length) :
    (is.zipWith (fun i g => [(name i, g)]) gs).flatten.map Prod.snd = gs := by
  induction is generalizing gs with
  | nil => exact (List.length_eq_zero_iff.mp length).symm
  | cons i is ih =>
    cases gs with
    | nil => cases length
    | cons g gs => simpa using ih (Nat.succ.inj length)

/-- `macOf` finds what the expression does. -/
theorem extractMac_eq (string : String) : extractMac string = macOf string := by
  have found := (decides_sixPairs (fun i g => [(toString i, g)]) decides_group).first
    string.toList
  unfold extractMac macOf macRegex
  rw [found]
  by_cases empty : string = ""
  · rw [if_pos empty, empty]
    rfl
  rw [if_neg empty]
  cases matched : matchMac string.toList with
  | none => rfl
  | some p =>
    have six : p.1.length = [1, 2, 3, 4, 5, 6].length := (matchMac_spec matched).1
    have groups := values_zipWith toString six
    simp only [Option.map_some, groups]

theorem flatten_zipWith_nil {α β γ : Type} (as : List α) (bs : List β) :
    (as.zipWith (fun _ _ => ([] : List γ)) bs).flatten = [] := by
  induction as generalizing bs with
  | nil => rfl
  | cons a as ih =>
    cases bs with
    | nil => rfl
    | cons b bs => simpa using ih bs

/-- After the pairs, a colon and the rest of the line. -/
theorem first_line (text : List Char) :
    (Regex.seq (.one (· = ':')) (.group "1" (.longest (· ≠ '\n')))).first text =
      match text with
      | ':' :: rest =>
        if rest.takeWhile (· ≠ '\n') = [] then none
        else some ⟨[("1", rest.takeWhile (· ≠ '\n'))], rest.dropWhile (· ≠ '\n')⟩
      | _ => none := by
  rw [first_seq]
  cases text with
  | nil => rfl
  | cons c rest =>
    by_cases colon : c = ':'
    · subst colon
      simp only [ways, decide_true, if_true, List.findSome?_singleton, first_group_longest,
        map_andThen_nil]
    · simp [ways, colon]

/-- `ssidOf` finds what the expression does. -/
theorem extractSsid_eq (string : String) : extractSsid string = ssidOf string := by
  have pairs := decides_sixPairs (fun _ _ => []) (fun _ => decides_digits) string.toList
  simp only [flatten_zipWith_nil] at pairs
  unfold extractSsid ssidOf ssidRegex
  rw [first_seq, pairs]
  by_cases empty : string = ""
  · rw [if_pos empty, empty]
    rfl
  rw [if_neg empty]
  rcases matchMac string.toList with _ | ⟨groups, rest⟩
  · rfl
  · simp only [Option.map_some, Option.toList_some, List.findSome?_singleton, map_andThen_nil,
      Option.bind_eq_bind, Option.bind_some, first_line]
    rcases rest with _ | ⟨c, rest⟩
    · rfl
    · by_cases colon : c = ':'
      · subst colon
        by_cases line : rest.takeWhile (· ≠ '\n') = []
        · simp only [line, if_true, Option.bind_none]
        · simp only [line, if_false, Option.bind_some]
          rfl
      · simp [colon]

end Text

/-- What `find_port` extracts from a text. -/
theorem extract_str (s : String) : extractMac (.str s) = pure (Text.extractMac s) ∧
    extractSsid (.str s) = pure (Text.extractSsid s) := by
  rw [Text.extractMac_eq, Text.extractSsid_eq, extractMac, extractSsid, extract, extract]
  by_cases empty : s = ""
  · subst empty
    exact ⟨rfl, rfl⟩
  · simp only [if_neg empty, and_self]

/-! ## Renderings -/

/-- Two hexadecimal digits of any case. -/
structure HexPair where
  first : Char
  second : Char
  hex : isHex first ∧ isHex second

def HexPair.text (p : HexPair) : List Char := [p.first, p.second]

/-- Six pairs, and what stands between each and the next: a separator or nothing. -/
structure Rendering where
  head : HexPair
  tail : List (Option Char × HexPair)
  six : tail.length = 5
  separators : ∀ part ∈ tail, ∀ c ∈ part.1, isSeparator c

namespace Rendering

/-- The pairs after the first one, each after its separator. -/
def parts (tail : List (Option Char × HexPair)) : List Char :=
  tail.flatMap fun part => part.1.toList ++ part.2.text

def text (r : Rendering) : List Char := r.head.text ++ parts r.tail

def groups (r : Rendering) : List (List Char) := r.head.text :: r.tail.map fun part => part.2.text

/-- The groups in lower case, with colons between them. -/
def mac (r : Rendering) : String :=
  String.ofList (List.intercalate [':'] (r.groups.map (List.map Char.toLower)))

theorem hexPair_text (p : HexPair) (rest : List Char) :
    hexPair (p.text ++ rest) = some (p.text, rest) := by
  simp [hexPair, HexPair.text, p.hex]

theorem skipSeparator_text (p : HexPair) (rest : List Char) :
    skipSeparator (p.text ++ rest) = p.text ++ rest := by
  have notSep : isSeparator p.first = false := by
    by_contra sep
    simpa [Text.not_hex_of_separator (by simpa using sep)] using p.hex.1
  simp [HexPair.text, skipSeparator, notSep]

theorem hexPairs_parts {tail : List (Option Char × HexPair)}
    (separators : ∀ part ∈ tail, ∀ c ∈ part.1, isSeparator c) (rest : List Char) :
    hexPairs tail.length (parts tail ++ rest) =
      some (tail.map fun part => part.2.text, rest) := by
  induction tail with
  | nil => rfl
  | cons part tail ih =>
    obtain ⟨own, others⟩ := List.forall_mem_cons.mp separators
    obtain ⟨sep, p⟩ := part
    have found := ih others
    have skip : skipSeparator (sep.toList ++ p.text ++ (parts tail ++ rest)) =
        p.text ++ (parts tail ++ rest) := by
      cases sep with
      | none => exact skipSeparator_text p _
      | some c => simp [skipSeparator, own c rfl]
    have split : parts ((sep, p) :: tail) ++ rest =
        sep.toList ++ p.text ++ (parts tail ++ rest) := by
      simp [parts]
    rw [split, List.length_cons, hexPairs, skip, hexPair_text]
    simp [found]

/-- A rendering is found at the beginning of every text that begins with it. -/
theorem matchMac_text (r : Rendering) (rest : List Char) :
    matchMac (r.text ++ rest) = some (r.groups, rest) := by
  have found := hexPairs_parts r.separators rest
  rw [r.six] at found
  rw [matchMac, text, List.append_assoc, hexPair_text]
  simp [found, groups]

theorem exists_pair {text pair rest : List Char} (h : hexPair text = some (pair, rest)) :
    ∃ p : HexPair, text = p.text ++ rest ∧ p.text = pair := by
  unfold hexPair at h
  split at h
  · rename_i c d tail
    split at h
    · rename_i digits
      obtain ⟨rfl, rfl⟩ := Prod.mk.inj (Option.some.inj h)
      exact ⟨⟨c, d, by simpa using digits⟩, rfl, rfl⟩
    · cases h
  · cases h

theorem exists_separator (text : List Char) :
    ∃ sep : Option Char, text = sep.toList ++ skipSeparator text ∧ ∀ c ∈ sep, isSeparator c := by
  cases text with
  | nil => exact ⟨none, rfl, by simp⟩
  | cons c rest =>
    by_cases sep : isSeparator c
    · exact ⟨some c, by simp [skipSeparator, sep], by simpa using sep⟩
    · exact ⟨none, by simp [skipSeparator, sep], by simp⟩

theorem exists_parts {n : ℕ} {text : List Char} {pairs : List (List Char)} {rest : List Char}
    (h : hexPairs n text = some (pairs, rest)) : ∃ tail : List (Option Char × HexPair),
      tail.length = n ∧ (∀ part ∈ tail, ∀ c ∈ part.1, isSeparator c) ∧
        text = parts tail ++ rest := by
  induction n generalizing text pairs rest with
  | zero =>
    obtain ⟨-, rfl⟩ := Prod.mk.inj (Option.some.inj h)
    exact ⟨[], rfl, by simp, rfl⟩
  | succ n ih =>
    obtain ⟨⟨pair, left⟩, first, h⟩ := Option.bind_eq_some_iff.mp h
    obtain ⟨⟨others, left'⟩, second, h⟩ := Option.bind_eq_some_iff.mp h
    obtain ⟨-, rfl⟩ := Prod.mk.inj (Option.some.inj h)
    obtain ⟨sep, skipped, isSep⟩ := exists_separator text
    obtain ⟨p, begins, -⟩ := exists_pair first
    obtain ⟨tail, length, separators, more⟩ := ih second
    refine ⟨(sep, p) :: tail, by simp [length],
      List.forall_mem_cons.mpr ⟨isSep, separators⟩, ?_⟩
    calc text = sep.toList ++ (p.text ++ (parts tail ++ left')) := by
          rw [← more, ← begins, ← skipped]
      _ = parts ((sep, p) :: tail) ++ left' := by simp [parts]

/-- What is found at the beginning of a text is a rendering. -/
theorem exists_rendering {text : List Char} {groups : List (List Char)} {rest : List Char}
    (h : matchMac text = some (groups, rest)) : ∃ r : Rendering, text = r.text ++ rest := by
  obtain ⟨⟨pair, left⟩, first, h⟩ := Option.bind_eq_some_iff.mp h
  obtain ⟨⟨others, left'⟩, second, h⟩ := Option.bind_eq_some_iff.mp h
  obtain ⟨-, rfl⟩ := Prod.mk.inj (Option.some.inj h)
  obtain ⟨p, rfl, -⟩ := exists_pair first
  obtain ⟨tail, length, separators, rfl⟩ := exists_parts second
  exact ⟨⟨p, tail, length, separators⟩, by simp [Rendering.text]⟩

/-! ### The canonical rendering -/

theorem isHex_toLower {c : Char} (h : isHex c) : isHex c.toLower := by
  have lower := isLowerHex_toLower h
  simp only [isLowerHex, isHex, Bool.or_eq_true] at lower ⊢
  exact .inl lower

theorem toLower_toLower {c : Char} (h : isHex c) : c.toLower.toLower = c.toLower :=
  forall_isHex (P := fun c => c.toLower.toLower = c.toLower) (by decide) h

def lower (p : HexPair) : HexPair :=
  ⟨p.first.toLower, p.second.toLower, isHex_toLower p.hex.1, isHex_toLower p.hex.2⟩

/-- The same groups in lower case, with colons between them. -/
def canonical (r : Rendering) : Rendering where
  head := lower r.head
  tail := r.tail.map fun part => (some ':', lower part.2)
  six := by simp [r.six]
  separators part hpart c hc := by
    obtain ⟨_, _, rfl⟩ := List.mem_map.mp hpart
    obtain rfl := Option.some.inj hc
    rfl

theorem groups_canonical (r : Rendering) :
    r.canonical.groups = r.groups.map (List.map Char.toLower) := by
  simp [groups, canonical, lower, HexPair.text]

theorem text_canonical (r : Rendering) : r.canonical.text = r.mac.toList := by
  obtain ⟨head, tail, -, -⟩ := r
  have more (tail : List (Option Char × HexPair)) (start : List Char) :
      start ++ parts (tail.map fun part => (some ':', lower part.2)) =
        List.intercalate [':'] (start :: (tail.map fun part => part.2.text).map
          (List.map Char.toLower)) := by
    induction tail generalizing start with
    | nil => simp [parts]
    | cons part tail ih =>
      rw [List.map_cons, List.map_cons, List.map_cons, List.intercalate_cons_cons, ← ih]
      simp [parts, lower, HexPair.text]
  rw [mac, String.toList_ofList]
  exact more tail (lower head).text

theorem mac_canonical (r : Rendering) : r.canonical.mac = r.mac := by
  rw [mac, groups_canonical, mac]
  have lowerCase (p : HexPair) : (p.text.map Char.toLower).map Char.toLower =
      p.text.map Char.toLower := by
    simp [HexPair.text, toLower_toLower p.hex.1, toLower_toLower p.hex.2]
  simp only [groups, List.map_cons, List.map_map, lowerCase, Function.comp_def]

end Rendering

theorem extractMac_of_begins {s : String} {r : Rendering} (h : r.text <+: s.toList) :
    Text.extractMac s = some r.mac := by
  obtain ⟨rest, split⟩ := h
  rw [Text.extractMac_eq, macOf, ← split, r.matchMac_text, Option.map_some, joinMac,
    map_intercalate]
  rfl

/-- `extract_mac` finds something in a text exactly if a rendering is at its beginning, and
then it is the canonical one. What comes after a rendering and a colon is the SSID. -/
theorem extractMac_rendering :
    (∀ s, Text.extractMac s ≠ none ↔ ∃ r : Rendering, r.text <+: s.toList) ∧
    (∀ s (r : Rendering), r.text <+: s.toList →
      Text.extractMac s = some r.mac ∧ Text.extractMac r.mac = some r.mac) ∧
    ∀ (r : Rendering) (t : String), t ≠ "" → '\n' ∉ t.toList →
      Text.extractMac (String.ofList r.text ++ ":" ++ t) = Text.extractMac (String.ofList r.text) ∧
      Text.extractSsid (String.ofList r.text ++ ":" ++ t) = some t := by
  refine ⟨fun s => ⟨fun found => ?_, ?_⟩, fun s r begins => ?_, fun r t nonempty oneLine => ?_⟩
  · rw [Text.extractMac_eq, macOf, ne_eq, Option.map_eq_none_iff] at found
    obtain ⟨⟨groups, rest⟩, matched⟩ := Option.ne_none_iff_exists'.mp found
    obtain ⟨r, split⟩ := Rendering.exists_rendering matched
    exact ⟨r, rest, split.symm⟩
  · rintro ⟨r, begins⟩
    simp [extractMac_of_begins begins]
  · have own : r.canonical.text <+: r.mac.toList := by rw [r.text_canonical]
    exact ⟨extractMac_of_begins begins, (extractMac_of_begins own).trans (by rw [r.mac_canonical])⟩
  · have whole : (String.ofList r.text ++ ":" ++ t).toList = r.text ++ ':' :: t.toList := by simp
    have alone : r.text <+: (String.ofList r.text).toList := by simp
    have line : t.toList.takeWhile (· ≠ '\n') = t.toList := by
      rw [List.takeWhile_eq_self_iff]
      intro c hc
      exact decide_eq_true fun newline => oneLine (newline ▸ hc)
    constructor
    · rw [extractMac_of_begins (whole ▸ List.prefix_append ..), extractMac_of_begins alone]
    · have some : t.toList ≠ [] := String.toList_eq_nil_iff.not.mpr nonempty
      rw [Text.extractSsid_eq, ssidOf, whole, r.matchMac_text]
      simp only [Option.bind_eq_bind, Option.bind_some, line, if_neg some, String.ofList_toList]

end ElanAgent.Radius
