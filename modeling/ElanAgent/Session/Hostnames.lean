import ElanAgent.Session.Calls

/-!
# Hostnames from mDNS

`process_packet` of `bin/device_trackerd.py` takes the name of the sender from a response in
which a record has an address of the sender. The dissector lists the names and the types of
all the records, and the addresses of those that have one. The loop goes through the names,
but takes a type, and the address that goes with it, for the names in `local` only.
-/

namespace ElanAgent.Session

open Atomic

/-- `text.split(sep)`. -/
def split (sep : Char) (text : String) : List String :=
  (text.toList.splitOn sep).map String.ofList

/-- The label of a name `<label>.local`. -/
def localLabel (name : String) : Option String :=
  match split '.' name with
  | label :: domain => if domain = ["local"] then some label else none
  | [] => none

/-- `showname_value.split(' ')[0]`. The mnemonic of a type comes first. -/
def mnemonic (type : String) : String := (split ' ' type).headD ""

/-- A record of a response, with the texts of the dissector. -/
structure Record where
  name : String
  type : String
  address : Option String
  addressed : address.isSome ↔ mnemonic type ∈ ["A", "AAAA"]
  nonempty : address ≠ some ""

/-- The fields of `packet.mdns`. There is no attribute for what does not occur. -/
structure Mdns where
  dnsFlagsResponse : ℕ
  dnsFlagsAuthoritative : ℕ
  dnsA : Option (List String)
  dnsAaaa : Option (List String)
  dnsRespType : Option (List String)
  dnsRespName : Option (List String)

def Mdns.attr (fields : List String) : Option (List String) :=
  if fields = [] then none else some fields

/-- The addresses of the records of a type, in order. -/
def addresses (kind : String) (records : List Record) : List String :=
  records.filterMap fun r => if mnemonic r.type = kind then r.address else none

/-- What the dissector makes of an authoritative response. -/
def dissect (records : List Record) : Mdns where
  dnsFlagsResponse := 1
  dnsFlagsAuthoritative := 1
  dnsA := Mdns.attr (addresses "A" records)
  dnsAaaa := Mdns.attr (addresses "AAAA" records)
  dnsRespType := Mdns.attr (records.map Record.type)
  dnsRespName := Mdns.attr (records.map Record.name)

inductive PopError where
  | indexError

/-- `stack.pop()`. -/
def pop (stack : List String) : Except PopError (String × List String) :=
  match stack.getLast? with
  | some top => .ok (top, stack.dropLast)
  | none => .error .indexError

/-- `resp_types`, `a_list` and `aaaa_list`. -/
structure Stacks where
  respTypes : List String
  aList : List String
  aaaaList : List String

/-- Take a type, and the address that goes with it. -/
def Stacks.target (s : Stacks) : Except PopError (Option String × Stacks) := do
  let (type, respTypes) ← pop s.respTypes
  let respType := mnemonic type
  if respType = "A" then
    let (target, aList) ← pop s.aList
    pure (some target, { s with respTypes, aList })
  else if respType = "AAAA" then
    let (target, aaaaList) ← pop s.aaaaList
    pure (some target, { s with respTypes, aaaaList })
  else pure (none, { s with respTypes })

/-- Is there a target, and does the sender have it? -/
def hasTarget (mac vlan : Value) : Option String → Prog synapse Bool
  | some target => if target ≠ "" then macHasIpOnVlan mac target vlan else pure false
  | none => pure false

/-- The loop over the names. -/
def searchHostname (mac vlan : Value) :
    List String → Stacks → Prog synapse (Except PopError (Option String))
  | [], _ => pure (.ok none)
  | field :: names, s =>
    match localLabel field with
    | none => searchHostname mac vlan names s
    | some name =>
      match s.target with
      | .error e => pure (.error e)
      | .ok (target, s) => do
        if ← hasTarget mac vlan target then pure (.ok (some name))
        else searchHostname mac vlan names s

/-- The hostname that `process_packet` takes from mDNS. A missing attribute raises an
`AttributeError`, which is caught. -/
def mdnsHostname (mac vlan : Value) (mdns : Mdns) :
    Prog synapse (Except PopError (Option String)) :=
  if mdns.dnsFlagsResponse ≠ 0 ∧ mdns.dnsFlagsAuthoritative ≠ 0 then
    let aList := (mdns.dnsA.getD []).reverse
    let aaaaList := (mdns.dnsAaaa.getD []).reverse
    match mdns.dnsRespType, mdns.dnsRespName with
    | some respTypes, some names =>
      searchHostname mac vlan names ⟨respTypes.reverse, aList, aaaaList⟩
    | _, _ => pure (.ok none)
  else pure (.ok none)

/-! ## Records -/

namespace Record

def label (r : Record) : Option String := localLabel r.name

/-- The record has an address that is an IP of the sender. -/
def own (w : World) (mac vlan : Value) (r : Record) : Bool :=
  r.address.any fun address => ((macHasIpOnVlan mac address vlan).run handler w).1

/-- The label of the first record with a local name and an address of the sender. -/
def hostname (w : World) (mac vlan : Value) (records : List Record) : Option String :=
  records.findSome? fun r => if r.own w mac vlan then r.label else none

end Record

/-- The number of records before the first one that has an address of the sender. -/
def Record.lead (w : World) (mac vlan : Value) (records : List Record) : ℕ :=
  records.findIdx (Record.own w mac vlan)

/-- The number of records with a local name. -/
def Record.locals (records : List Record) : ℕ := (records.filterMap Record.label).length

/-- The local names are level with the records. If `r` is the first record with a local name
and an address of the sender, its label is that of the record `r'` that has as many local
names before it as there are records before the first with an address of the sender. -/
inductive Aligned (w : World) (mac vlan : Value) (records : List Record) : Prop where
  | unnamed (foreign : ∀ r ∈ records, r.own w mac vlan → r.label = none)
      (few : Record.locals records ≤ Record.lead w mac vlan records)
  | named {before after before' after' : List Record} {r r' : Record} {label : String}
      (parts : records = before ++ r :: after) (own : r.own w mac vlan)
      (labelled : r.label = some label)
      (first : ∀ x ∈ before, x.own w mac vlan → x.label = none)
      (parts' : records = before' ++ r' :: after') (labelled' : r'.label = some label)
      (level : Record.locals before' = Record.lead w mac vlan records)

/-! ## Names -/

theorem split_append {sep : Char} {label : String} (plain : sep ∉ label.toList) (rest : String) :
    split sep (label ++ String.singleton sep ++ rest) = label :: split sep rest := by
  have text : (label ++ String.singleton sep ++ rest).toList =
      label.toList ++ sep :: rest.toList := by
    simp
  rw [split, text, List.splitOn_append_cons_self_of_not_mem plain]
  simp [split]

theorem localLabel_eq_some_iff_split {name label : String} :
    localLabel name = some label ↔ split '.' name = [label, "local"] := by
  rw [localLabel]
  cases split '.' name with
  | nil => simp
  | cons first domain =>
    by_cases hlocal : domain = ["local"]
    · simp [hlocal]
    · simp [hlocal]

theorem localLabel_eq_some {name label : String} :
    localLabel name = some label ↔ '.' ∉ label.toList ∧ name = label ++ ".local" := by
  rw [localLabel_eq_some_iff_split]
  constructor
  · intro parts
    have pieces : name.toList.splitOn '.' = [label.toList, "local".toList] := by
      simpa [split] using congrArg (List.map String.toList) parts
    have whole : ['.'].intercalate (name.toList.splitOn '.') = name.toList :=
      List.intercalate_splitOn '.'
    have text : name.toList = label.toList ++ '.' :: "local".toList := by
      rw [← whole, pieces]
      rfl
    refine ⟨fun dot => ?_, ?_⟩
    · obtain ⟨start, rest, cut⟩ := List.append_of_mem dot
      rw [text, List.splitOn_append_cons_self, cut, List.splitOn_append_cons_self] at pieces
      have lengths := congrArg List.length pieces
      have positive (l : List Char) := List.length_pos_iff.mpr (List.splitOn_ne_nil '.' l)
      have hstart := positive start
      have hrest := positive rest
      have hlocal := positive "local".toList
      simp only [List.length_append, List.length_cons, List.length_nil] at lengths
      omega
    · rw [← String.toList_inj, text, String.toList_append]
      rfl
  · rintro ⟨plain, rfl⟩
    have rest : split '.' "local" = ["local"] := by decide +kernel
    have text : label ++ ".local" = label ++ String.singleton '.' ++ "local" := by
      rw [String.append_assoc]
      rfl
    rw [text, split_append plain, rest]

/-! ## Stacks -/

/-- What the stacks hold of the records that are left. -/
def Stacks.of (records : List Record) : Stacks where
  respTypes := (records.map Record.type).reverse
  aList := (addresses "A" records).reverse
  aaaaList := (addresses "AAAA" records).reverse

@[simp] theorem pop_reverse_cons (x : String) (xs : List String) :
    pop (x :: xs).reverse = pure (x, xs.reverse) := by
  simp only [pop, List.getLast?_reverse, List.head?_cons, List.dropLast_reverse, List.tail_cons]
  rfl

theorem addresses_cons_self {r : Record} {kind address : String} (hr : mnemonic r.type = kind)
    (given : r.address = some address) (records : List Record) :
    addresses kind (r :: records) = address :: addresses kind records := by
  simp [addresses, hr, given]

theorem addresses_cons_of_ne {r : Record} {kind : String} (hr : mnemonic r.type ≠ kind)
    (records : List Record) : addresses kind (r :: records) = addresses kind records := by
  simp [addresses, hr]

/-- One turn takes what belongs to one record from every stack. -/
theorem target_of_cons (r : Record) (records : List Record) :
    (Stacks.of (r :: records)).target = pure (r.address, Stacks.of records) := by
  simp only [Stacks.target, Stacks.of, List.map_cons, pop_reverse_cons, pure_bind]
  by_cases a : mnemonic r.type = "A"
  · obtain ⟨address, given⟩ := Option.isSome_iff_exists.mp (r.addressed.mpr (by simp [a]))
    have other : mnemonic r.type ≠ "AAAA" := by simp [a]
    rw [if_pos a, addresses_cons_self a given, addresses_cons_of_ne other, pop_reverse_cons,
      pure_bind, given]
  · rw [if_neg a, addresses_cons_of_ne a]
    by_cases aaaa : mnemonic r.type = "AAAA"
    · obtain ⟨address, given⟩ := Option.isSome_iff_exists.mp (r.addressed.mpr (by simp [aaaa]))
      rw [if_pos aaaa, addresses_cons_self aaaa given, pop_reverse_cons, pure_bind, given]
    · have absent : r.address = none := by
        rw [← Option.not_isSome_iff_eq_none, r.addressed]
        simp [a, aaaa]
      rw [if_neg aaaa, addresses_cons_of_ne aaaa, absent]

/-! ## The loop -/

section Loop

variable (w : World) (mac vlan : Value)

theorem run_hasTarget (r : Record) :
    (hasTarget mac vlan r.address).run handler w = (r.own w mac vlan, w) := by
  unfold Record.own hasTarget
  cases given : r.address with
  | none => rfl
  | some address =>
    have nonempty : address ≠ "" := by
      rintro rfl
      exact r.nonempty given
    simp only [if_pos nonempty]
    rfl

/-- The loop stops at the first record with an address of the sender, and its place among the
records is that of the name among those in `local`. -/
theorem run_searchHostname (names : List String) (records : List Record)
    (enough : (names.filterMap localLabel).length ≤ records.length) :
    (searchHostname mac vlan names (Stacks.of records)).run handler w =
      (.ok (names.filterMap localLabel)[Record.lead w mac vlan records]?, w) := by
  induction names generalizing records with
  | nil => rfl
  | cons field names ih =>
    cases hfield : localLabel field with
    | none =>
      rw [List.filterMap_cons_none hfield] at enough ⊢
      simp only [searchHostname, hfield]
      exact ih records enough
    | some name =>
      rw [List.filterMap_cons_some hfield, List.length_cons] at enough
      obtain ⟨r, records, rfl⟩ := List.exists_cons_of_length_pos (Nat.zero_lt_of_lt enough)
      have fewer := Nat.le_of_succ_le_succ enough
      rw [List.filterMap_cons_some hfield, Record.lead, List.findIdx_cons]
      simp only [searchHostname, hfield, target_of_cons]
      change (hasTarget mac vlan r.address >>= fun has =>
        if has then pure (.ok (some name))
        else searchHostname mac vlan names (Stacks.of records)).run handler w = _
      rw [Prog.run_bind, run_hasTarget]
      cases r.own w mac vlan with
      | true => rfl
      | false => exact ih records fewer

theorem getD_attr (fields : List String) : (Mdns.attr fields).getD [] = fields := by
  unfold Mdns.attr
  split
  · rename_i none
    rw [none, Option.getD_none]
  · rfl

/-- What the code takes: of the names in `local`, the one in the place of the first record
with an address of the sender. -/
theorem run_mdnsHostname (records : List Record) :
    (mdnsHostname mac vlan (dissect records)).run handler w =
      (.ok (records.filterMap Record.label)[Record.lead w mac vlan records]?, w) := by
  have flags : (dissect records).dnsFlagsResponse ≠ 0 ∧
      (dissect records).dnsFlagsAuthoritative ≠ 0 := ⟨one_ne_zero, one_ne_zero⟩
  rw [mdnsHostname, if_pos flags]
  cases records with
  | nil => rfl
  | cons r records =>
    have found := run_searchHostname w mac vlan ((r :: records).map Record.name) (r :: records)
      ((List.length_filterMap_le _ _).trans (List.length_map _).le)
    rw [List.filterMap_map] at found
    simp only [dissect, getD_attr]
    exact found

end Loop

/-! ## The hostname -/

section Hostname

variable {w : World} {mac vlan : Value} {records : List Record}

theorem hostname_eq_none : Record.hostname w mac vlan records = none ↔
    ∀ r ∈ records, r.own w mac vlan → r.label = none := by
  simp [Record.hostname]

theorem hostname_eq_some {label : String} :
    Record.hostname w mac vlan records = some label ↔
      ∃ before r after, records = before ++ r :: after ∧
        (r.own w mac vlan ∧ r.label = some label) ∧
        ∀ x ∈ before, x.own w mac vlan → x.label = none := by
  simp [Record.hostname, List.findSome?_eq_some_iff]

theorem place_eq_some {n : ℕ} {label : String} :
    (records.filterMap Record.label)[n]? = some label ↔
      ∃ before r after, records = before ++ r :: after ∧ r.label = some label ∧
        Record.locals before = n := by
  constructor
  · intro place
    obtain ⟨within, at_n⟩ := List.getElem?_eq_some_iff.mp place
    have cut := (List.take_append_drop n (records.filterMap Record.label)).symm
    rw [List.drop_eq_getElem_cons within, at_n] at cut
    obtain ⟨start, rest, rfl, hstart, hrest⟩ := List.filterMap_eq_append_iff.mp cut
    obtain ⟨skipped, r, after, rfl, unlabelled, labelled, -⟩ :=
      List.filterMap_eq_cons_iff.mp hrest
    refine ⟨start ++ skipped, r, after, (List.append_assoc _ _ _).symm, labelled, ?_⟩
    have none : skipped.filterMap Record.label = [] := List.filterMap_eq_nil_iff.mpr unlabelled
    rw [Record.locals, List.filterMap_append, none, List.append_nil, hstart, List.length_take]
    exact min_eq_left within.le
  · rintro ⟨before, r, after, rfl, labelled, rfl⟩
    rw [List.filterMap_append, List.filterMap_cons_some labelled, Record.locals]
    simp

theorem aligned_iff_place : Aligned w mac vlan records ↔
    (records.filterMap Record.label)[Record.lead w mac vlan records]? =
      Record.hostname w mac vlan records := by
  constructor
  · rintro (⟨foreign, few⟩ | ⟨parts, own, labelled, first, parts', labelled', level⟩)
    · rw [hostname_eq_none.mpr foreign]
      exact List.getElem?_eq_none few
    · rw [hostname_eq_some.mpr ⟨_, _, _, parts, ⟨own, labelled⟩, first⟩]
      exact place_eq_some.mpr ⟨_, _, _, parts', labelled', level⟩
  · intro place
    cases found : Record.hostname w mac vlan records with
    | none =>
      rw [found] at place
      exact .unnamed (hostname_eq_none.mp found) (List.getElem?_eq_none_iff.mp place)
    | some label =>
      obtain ⟨before, r, after, parts, ⟨own, labelled⟩, first⟩ := hostname_eq_some.mp found
      obtain ⟨before', r', after', parts', labelled', level⟩ :=
        place_eq_some.mp (place.trans found)
      exact .named parts own labelled first parts' labelled' level

/-- No place is lost in a response whose names are all in `local`. -/
theorem aligned_of_local (all : ∀ r ∈ records, r.label.isSome) :
    Aligned w mac vlan records := by
  rw [aligned_iff_place]
  induction records with
  | nil => rfl
  | cons r records ih =>
    obtain ⟨label, hlabel⟩ := Option.isSome_iff_exists.mp (all r List.mem_cons_self)
    have ih := ih fun r' hr' => all r' (List.mem_cons_of_mem r hr')
    rw [List.filterMap_cons_some hlabel, Record.lead, List.findIdx_cons, Record.hostname,
      List.findSome?_cons]
    cases hr : r.own w mac vlan with
    | true => simp [hlabel]
    | false => exact ih

end Hostname

/-- The hostname is the label of the first record with a local name and an address of the
sender exactly when the local names are level with the records. -/
theorem mdnsHostname_iff_aligned (w : World) (mac vlan : Value) (records : List Record) :
    ((mdnsHostname mac vlan (dissect records)).run handler w).1 =
      .ok (Record.hostname w mac vlan records) ↔ Aligned w mac vlan records := by
  rw [run_mdnsHostname, Except.ok.injEq, aligned_iff_place]

/-- A service of the sender, and its address. -/
def announcement : List Record :=
  [{ name := "_http._tcp.local", type := "PTR (domain name PoinTeR) (12)", address := none,
     addressed := by decide +kernel, nonempty := nofun },
   { name := "nas.local", type := "A (Host Address) (1)", address := some "10.0.0.2",
     addressed := by decide +kernel, nonempty := by decide }]

/-- The name of the service takes no type, so that the type of its record is taken for the
name of the sender. -/
theorem mdnsHostname_service :
    let w := World.empty.setMembers (macVlanIpsPath "00:11" "eth0.0") ["10.0.0.2"]
    ((mdnsHostname "00:11" "eth0.0" (dissect announcement)).run handler w).1 = .ok none ∧
      Record.hostname w "00:11" "eth0.0" announcement = some "nas" := by
  intro w
  rw [run_mdnsHostname, Except.ok.injEq]
  decide +kernel

end ElanAgent.Session
