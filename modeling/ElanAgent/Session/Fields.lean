import ElanAgent.Library.Regex
import ElanAgent.Session.CurrentSessions

/-!
# Fields and tuples

The expression of `field_to_mac_vlan_ip`, and that it is inverse to `session_ids_field`: the
tuples that are read back from their fields are joined by the fields that are written back
from their tuples.
-/

namespace ElanAgent.Session

open Regex

/-! ## The expression -/

/-- `.` -/
def anyChar (c : Char) : Bool := c ≠ '\n'

/-- The expression of `field_to_mac_vlan_ip`, with the groups that are read. -/
def fieldRegex : Regex :=
  .seq (.literal "mac=".toList) (.seq (.group "mac" (.shortest anyChar))
    (.alt .atEnd (.seq (.literal ",vlan=".toList) (.seq (.group "vlan" (.shortest anyChar))
      (.alt .atEnd (.seq (.literal ",ip=".toList)
        (.seq (.group "ip" (.shortest anyChar)) .atEnd)))))))

/-- `m.group('mac'), m.group('vlan'), m.group('ip')`. A group that has not matched is `None`. -/
def readGroups (groups : List (String × List Char)) : Tuple :=
  let read (name : String) : Value :=
    match (groups.find? fun g => g.1 = name).map Prod.snd with
    | some text => .str (String.ofList text)
    | none => .none
  (read "mac", read "vlan", read "ip")

/-- The groups of the match. -/
def groupsOf (r : Regex) (text : List Char) : Option (List (String × List Char)) :=
  (r.first text).map Match.groups

theorem groupsOf_atEnd (text : List Char) :
    groupsOf .atEnd text = if atEnd text then some [] else none := by
  unfold groupsOf first ways
  by_cases h : text = [] ∨ text = ['\n']
  · simp [h, atEnd]
  · simp [h, atEnd]

theorem groupsOf_alt (a b : Regex) (text : List Char) :
    groupsOf (.alt a b) text = (groupsOf a text).or (groupsOf b text) := by
  rw [groupsOf, first_alt, groupsOf, groupsOf]
  cases a.first text <;> rfl

theorem groupsOf_literal (part : String) (r : Regex) (text : List Char) :
    groupsOf (.seq (.literal part.toList) r) text = (literal part text).bind (groupsOf r) := by
  have parts := decides_literal part.toList text
  rw [groupsOf, first_seq, parts, literal]
  by_cases begins : part.toList <+: text
  · have prefixed : part.toList.isPrefixOf text = true := List.isPrefixOf_iff_prefix.mpr begins
    simp [begins, prefixed, groupsOf, String.length_toList]
  · have not : part.toList.isPrefixOf text = false :=
      Bool.eq_false_iff.mpr fun h => begins (List.isPrefixOf_iff_prefix.mp h)
    simp [begins, not]

/-- The shortest text for a group is that of `lazily`. -/
theorem groupsOf_shortest (name : String) (r : Regex) (text : List Char) :
    groupsOf (.seq (.group name (.shortest anyChar)) r) text =
      (lazily (groupsOf r) text).map fun p => (name, p.1) :: p.2 := by
  have scan (start : List Char) :
      ((runs anyChar text).findSome? fun rest => (r.first rest).map fun m =>
        (Match.named name (start ++ text) ⟨[], rest⟩).andThen m).map Match.groups =
      (lazily (groupsOf r) text).map fun p => (name, start ++ p.1) :: p.2 := by
    induction text generalizing start with
    | nil => rfl
    | cons c text ih =>
      have later := ih (start ++ [c])
      rw [List.append_assoc, List.singleton_append] at later
      by_cases newline : c = '\n'
      · simp [runs, anyChar, lazily, newline]
      · have taken := named_append name (start ++ [c]) text []
        rw [List.append_assoc, List.singleton_append] at taken
        rw [runs, if_pos (by simp [anyChar, newline]), List.findSome?_cons, lazily,
          if_neg newline, taken]
        cases found : r.first text with
        | none =>
          have none : groupsOf r text = none := by simp [groupsOf, found]
          simp only [none, Option.map_none, later, Option.map_map]
          cases lazily (groupsOf r) text <;> simp
        | some m =>
          have some : groupsOf r text = some m.groups := by simp [groupsOf, found]
          simp [some, Match.andThen]
  rw [groupsOf, first_seq]
  simpa [ways, List.findSome?_map, Function.comp_def] using scan []

/-- The end, or another part with groups of its own. -/
theorem groupsOf_endOr {β : Type} {part : List Char → Option β}
    {groups : β → List (String × List Char)} {r : Regex}
    (same : ∀ text, groupsOf r text = (part text).map groups) (text : List Char) :
    groupsOf (.alt .atEnd r) text = (endOr part text).map fun b => b.elim [] groups := by
  rw [groupsOf_alt, groupsOf_atEnd, same, endOr]
  split
  · rfl
  · cases part text <;> rfl

theorem lazily_map {β γ : Type} (g : β → γ) (rest : List Char → Option β) (text : List Char) :
    lazily (fun text => (rest text).map g) text =
      (lazily rest text).map fun p => (p.1, g p.2) := by
  induction text with
  | nil => rfl
  | cons c text ih =>
    rw [lazily, lazily]
    split
    · rfl
    · cases rest text with
      | none =>
        simp only [Option.map_none, ih]
        cases lazily rest text <;> rfl
      | some b => rfl

theorem groupsOf_ip (text : List Char) :
    groupsOf (.seq (.literal ",ip=".toList) (.seq (.group "ip" (.shortest anyChar)) .atEnd)) text =
      (ipPart text).map fun ip => [("ip", ip.toList)] := by
  have atTheEnd : groupsOf .atEnd = fun text =>
      ((if atEnd text then some () else none : Option Unit)).map fun _ => [] := by
    funext text
    rw [groupsOf_atEnd]
    split <;> rfl
  rw [groupsOf_literal, ipPart]
  cases literal ",ip=" text with
  | none => rfl
  | some text =>
    simp only [Option.bind_some, Option.bind_eq_bind, groupsOf_shortest, atTheEnd, lazily_map]
    cases lazily (fun rest => if atEnd rest then some () else none) text with
    | none => rfl
    | some p => simp

theorem groupsOf_vlan (text : List Char) :
    groupsOf (.seq (.literal ",vlan=".toList) (.seq (.group "vlan" (.shortest anyChar))
      (.alt .atEnd (.seq (.literal ",ip=".toList)
        (.seq (.group "ip" (.shortest anyChar)) .atEnd))))) text =
      (vlanPart text).map fun p =>
        ("vlan", p.1.toList) :: p.2.elim [] fun ip => [("ip", ip.toList)] := by
  rw [groupsOf_literal, vlanPart]
  cases literal ",vlan=" text with
  | none => rfl
  | some text =>
    simp only [Option.bind_some, Option.bind_eq_bind, groupsOf_shortest,
      funext (groupsOf_endOr groupsOf_ip), lazily_map]
    cases lazily (endOr ipPart) text with
    | none => rfl
    | some p => simp

/-- `fieldToMacVlanIp` reads what the expression matches. -/
theorem fieldToMacVlanIp_eq (field : String) :
    fieldToMacVlanIp field = (groupsOf fieldRegex field.toList).map readGroups := by
  rw [fieldRegex, groupsOf_literal, fieldToMacVlanIp]
  cases literal "mac=" field.toList with
  | none => rfl
  | some text =>
    simp only [Option.bind_some, Option.bind_eq_bind, groupsOf_shortest,
      funext (groupsOf_endOr groupsOf_vlan), lazily_map]
    rcases lazily (endOr vlanPart) text with _ | ⟨mac, _ | ⟨vlan, _ | ip⟩⟩
    · rfl
    · rfl
    · simp [readGroups]
    · simp [readGroups]

/-! ## Fields that are written back -/

theorem literal_some {part : String} {text rest : List Char} (h : literal part text = some rest) :
    text = part.toList ++ rest := by
  unfold literal at h
  split at h
  · rename_i begins
    obtain ⟨more, rfl⟩ := List.isPrefixOf_iff_prefix.mp begins
    obtain rfl := Option.some.inj h
    simp [← String.length_toList]
  · cases h

theorem lazily_some {β : Type} {rest : List Char → Option β} {text taken : List Char} {b : β}
    (h : lazily rest text = some (taken, b)) :
    ∃ tail, text = taken ++ tail ∧ rest tail = some b := by
  induction text generalizing taken with
  | nil => cases h
  | cons c text ih =>
    rw [lazily] at h
    split at h
    · cases h
    · cases hit : rest text with
      | some b' =>
        simp only [hit, Option.some.injEq, Prod.mk.injEq] at h
        obtain ⟨rfl, rfl⟩ := h
        exact ⟨text, rfl, hit⟩
      | none =>
        rw [hit] at h
        obtain ⟨⟨more, b'⟩, found, same⟩ := Option.map_eq_some_iff.mp h
        obtain ⟨rfl, rfl⟩ := Prod.mk.inj same
        obtain ⟨tail, rfl, later⟩ := ih found
        exact ⟨tail, rfl, later⟩

theorem endOr_some {β : Type} {part : List Char → Option β} {text : List Char} {b : Option β}
    (newline : '\n' ∉ text) (h : endOr part text = some b) :
    (text = [] ∧ b = none) ∨ ∃ found, part text = some found ∧ b = some found := by
  unfold endOr at h
  split at h
  · rename_i ends
    have here : text = [] ∨ text = ['\n'] := by simpa [atEnd] using ends
    refine .inl ⟨here.resolve_right ?_, (Option.some.inj h).symm⟩
    rintro rfl
    exact newline (by simp)
  · obtain ⟨found, hfound, rfl⟩ := Option.map_eq_some_iff.mp h
    exact .inr ⟨found, hfound, rfl⟩

theorem ipPart_some {text : List Char} {ip : String} (newline : '\n' ∉ text)
    (h : ipPart text = some ip) : text = ",ip=".toList ++ ip.toList := by
  obtain ⟨rest, part, h⟩ := Option.bind_eq_some_iff.mp h
  obtain ⟨⟨taken, _⟩, found, h⟩ := Option.bind_eq_some_iff.mp h
  obtain rfl := Option.some.inj h
  obtain ⟨tail, rfl, ends⟩ := lazily_some found
  obtain rfl := literal_some part
  have here : tail = [] ∨ tail = ['\n'] := by
    by_contra absent
    simp [atEnd, absent] at ends
  have none : tail = [] := by
    refine here.resolve_right ?_
    rintro rfl
    exact newline (by simp)
  simp [none]

theorem vlanPart_some {text : List Char} {vlan : String} {ip : Option String}
    (newline : '\n' ∉ text) (h : vlanPart text = some (vlan, ip)) :
    text = ",vlan=".toList ++ (vlan.toList ++ ip.elim [] fun ip => ",ip=".toList ++ ip.toList) := by
  obtain ⟨rest, part, h⟩ := Option.bind_eq_some_iff.mp h
  obtain ⟨⟨taken, ip'⟩, found, h⟩ := Option.bind_eq_some_iff.mp h
  obtain ⟨rfl, rfl⟩ := Prod.mk.inj (Option.some.inj h)
  obtain ⟨tail, rfl, hit⟩ := lazily_some found
  obtain rfl := literal_some part
  have oneLine : '\n' ∉ tail := fun h => newline (by simp [h])
  rcases endOr_some oneLine hit with ⟨rfl, rfl⟩ | ⟨ip, ipFound, rfl⟩
  · simp
  · obtain rfl := ipPart_some oneLine ipFound
    simp

/-- A field that is read is that of the tuple. -/
theorem fieldOf_of_read {field : String} {t : Tuple} (newline : '\n' ∉ field.toList)
    (h : fieldToMacVlanIp field = some t) : fieldOf t = field := by
  obtain ⟨rest, part, h⟩ := Option.bind_eq_some_iff.mp h
  obtain ⟨⟨mac, more⟩, found, read⟩ := Option.bind_eq_some_iff.mp h
  obtain ⟨tail, rfl, hit⟩ := lazily_some found
  have text := literal_some part
  have oneLine : '\n' ∉ tail := fun h => newline (by simp [text, h])
  rw [← String.toList_inj, text]
  rcases endOr_some oneLine hit with ⟨rfl, rfl⟩ | ⟨⟨vlan, ip⟩, vlanFound, rfl⟩
  · obtain rfl := Option.some.inj read
    simp [fieldOf, sessionIdsField, Value.format]
  · obtain rfl := vlanPart_some oneLine vlanFound
    cases ip with
    | none =>
      obtain rfl := Option.some.inj read
      simp [fieldOf, sessionIdsField, Value.format]
    | some ip =>
      obtain rfl := Option.some.inj read
      simp [fieldOf, sessionIdsField, Value.format]

/-- Tuples are read back from their fields, so that no two of them have the same one, and
every field that the expression matches is that of the tuple that is read from it. -/
theorem fieldToMacVlanIp_inverse :
    (∀ t, Storable t → fieldToMacVlanIp (fieldOf t) = some t) ∧
    {t | Storable t}.InjOn fieldOf ∧
    ∀ field t, '\n' ∉ field.toList → fieldToMacVlanIp field = some t → fieldOf t = field := by
  refine ⟨fun t => fieldToMacVlanIp_fieldOf, fun t ht t' ht' same => ?_,
    fun field t => fieldOf_of_read⟩
  have read := fieldToMacVlanIp_fieldOf ht
  rw [same, fieldToMacVlanIp_fieldOf ht'] at read
  exact (Option.some.inj read).symm

end ElanAgent.Session
