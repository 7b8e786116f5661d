import ElanAgent.Library.Expiring
import ElanAgent.Library.Regex
import ElanAgent.Library.Text

/-!
# What is known of a device

`elan/device.py` keeps the host names and the DHCP fingerprints that each source tells of a
MAC for sixty days, tells the control center what is new, and all that it knows on request.

The MACs are texts of one length, which makes a key stand for one MAC and one source.
-/

namespace ElanAgent.Device

open Expiring

/-- `REDIS_LIFETIME`: 60 days in seconds. -/
def redisLifetime : ℚ := 60 * 24 * 60 * 60

inductive Kind where
  | hostname
  | fingerprint
  deriving DecidableEq

def Kind.text : Kind → String
  | .hostname => "hostname"
  | .fingerprint => "fingerprint"

def path (kind : Kind) (mac source : String) : String :=
  "mac:" ++ mac ++ ":" ++ kind.text ++ ":" ++ source

/-- `MAC_HOSTNAME_PATH`. -/
def macHostnamePath (mac source : String) : String := path .hostname mac source

/-- `MAC_FINGERPRINT_PATH`. -/
def macFingerprintPath (mac source : String) : String := path .fingerprint mac source

/-- A value that is kept: a name, or the dictionary of a fingerprint. -/
inductive Attribute where
  | name (text : String)
  | fingerprint (requestList vendor : String) (enterprise : Option String)
  deriving DecidableEq

/-- Python's truth value. -/
def Attribute.truthy : Attribute → Bool
  | .name text => text ≠ ""
  | .fingerprint .. => true

/-- A message on `mac/hostname` or `mac/fingerprint`; only the latter has a host name. -/
structure Message where
  kind : Kind
  mac : String
  source : String
  value : Attribute
  hostname : Option Attribute
  deriving DecidableEq

/-- The Redis store, and what has been published, oldest first. -/
structure World where
  synapse : Keys String Attribute
  published : List Message

def World.empty : World := ⟨∅, []⟩

namespace World

variable (now : ℚ) (w : World)

def notifyFingerprint (mac : String) (fingerprint : Attribute) (source : String)
    (hostname : Option Attribute) : World :=
  { w with published := w.published ++ [⟨.fingerprint, mac, source, fingerprint, hostname⟩] }

def notifyHostname (mac : String) (hostname : Attribute) (source : String) : World :=
  { w with published := w.published ++ [⟨.hostname, mac, source, hostname, none⟩] }

/-- True if the fingerprint is new, false if only its lifetime has been extended. -/
def storeFingerprint (mac : String) (fingerprint : Attribute) (source : String) : Bool × World :=
  let (new, synapse) :=
    refresh redisLifetime now (macFingerprintPath mac source) fingerprint w.synapse
  (new, { w with synapse })

def storeHostname (mac : String) (hostname : Attribute) (source : String) : Bool × World :=
  let (new, synapse) := refresh redisLifetime now (macHostnamePath mac source) hostname w.synapse
  (new, { w with synapse })

def seenFingerprint (mac : String) (fingerprint : Attribute) (source : String)
    (hostname : Option Attribute) : Bool × World :=
  let (new, w) := w.storeFingerprint now mac fingerprint source
  (new, if new then w.notifyFingerprint mac fingerprint source hostname else w)

def seenHostname (mac : String) (hostname : Attribute) (source : String) : Bool × World :=
  let (new, w) := w.storeHostname now mac hostname source
  (new, if new then w.notifyHostname mac hostname source else w)

end World

/-! ## Telling all that is known -/

/-- `re.match('mac:(?P<mac>.+):hostname:(?P<source>.+)', key)`, and the same for fingerprints.
A dot is any character but a newline. -/
def pathPattern (kind : Kind) : Regex :=
  .seq (.literal "mac:".toList) (.seq (.group "mac" (.longest (· ≠ '\n')))
    (.seq (.literal (":" ++ kind.text ++ ":").toList) (.group "source" (.longest (· ≠ '\n')))))

/-- The MAC and the source that a key is read to be of. -/
def parsePath (kind : Kind) (key : String) : Option (String × String) := do
  let m ← (pathPattern kind).first key.toList
  let mac ← m.get "mac"
  let source ← m.get "source"
  pure (String.ofList mac, String.ofList source)

namespace World

/-- One turn of the loop of `notify_known_hostnames`. -/
def notifyKnownHostname (now : ℚ) (r : ℕ × World) (key : String) : ℕ × World :=
  match parsePath .hostname key with
  | none => r
  | some (mac, source) =>
    match r.2.synapse.get now key with
    | none => r
    | some hostname =>
      if hostname.truthy then (r.1 + 1, r.2.notifyHostname mac hostname source) else r

/-- `notify_known_hostnames`, with the keys that `scan_iter` enumerates. -/
def notifyKnownHostnames (now : ℚ) (scanned : List String) (w : World) : ℕ × World :=
  scanned.foldl (notifyKnownHostname now) (0, w)

/-- One turn of the loop of `notify_known_fingerprints`. -/
def notifyKnownFingerprint (now : ℚ) (r : ℕ × World) (key : String) : ℕ × World :=
  match parsePath .fingerprint key with
  | none => r
  | some (mac, source) =>
    match r.2.synapse.get now key with
    | none => r
    | some fingerprint =>
      if fingerprint.truthy then
        let hostname := r.2.synapse.get now (macHostnamePath mac source)
        let hostname := if hostname.any Attribute.truthy then hostname else some (.name "")
        (r.1 + 1, r.2.notifyFingerprint mac fingerprint source hostname)
      else r

/-- `notify_known_fingerprints`, with the keys that `scan_iter` enumerates. -/
def notifyKnownFingerprints (now : ℚ) (scanned : List String) (w : World) : ℕ × World :=
  scanned.foldl (notifyKnownFingerprint now) (0, w)

/-- The one or the other. -/
def notifyKnown (kind : Kind) (now : ℚ) (scanned : List String) (w : World) : ℕ × World :=
  match kind with
  | .hostname => w.notifyKnownHostnames now scanned
  | .fingerprint => w.notifyKnownFingerprints now scanned

end World

/-! ## Runs -/

/-- A call of `seen_hostname`, or of `seen_fingerprint` with the host name of its packet. -/
structure Sighting where
  now : ℚ
  kind : Kind
  mac : String
  source : String
  value : Attribute
  hostname : Option Attribute

def World.see (w : World) (s : Sighting) : World :=
  match s.kind with
  | .hostname => (w.seenHostname s.now s.mac s.value s.source).2
  | .fingerprint => (w.seenFingerprint s.now s.mac s.value s.source s.hostname).2

/-- What the sightings leave. -/
def World.after (sightings : List Sighting) : World := sightings.foldl World.see World.empty

/-- The last sighting of a kind by a source. -/
def lastSighting (sightings : List Sighting) (kind : Kind) (mac source : String) :
    Option Sighting :=
  (sightings.filter fun s => s.kind = kind ∧ s.mac = mac ∧ s.source = source).getLast?

/-- The value of the last message of a kind about a MAC and a source. -/
def lastTold (published : List Message) (kind : Kind) (mac source : String) : Option Attribute :=
  ((published.filter fun m => m.kind = kind ∧ m.mac = mac ∧ m.source = source).getLast?).map
    Message.value

/-- The sighting as a write of its key. -/
def Sighting.write (s : Sighting) : Write String Attribute :=
  ⟨s.now, path s.kind s.mac s.source, s.value⟩

/-- The message as the report of a key. -/
def Message.report (m : Message) : String × Attribute := (path m.kind m.mac m.source, m.value)

/-! ## The keys -/

theorem path_toList (kind : Kind) (mac source : String) : (path kind mac source).toList =
    "mac:".toList ++ (mac.toList ++ ((":" ++ kind.text ++ ":").toList ++ source.toList)) := by
  simp [path]

/-- With MACs of one length, a key stands for one kind, one MAC and one source. -/
theorem path_inj {kind kind' : Kind} {mac mac' source source' : String}
    (lengths : mac.length = mac'.length) :
    path kind mac source = path kind' mac' source' ↔
      kind = kind' ∧ mac = mac' ∧ source = source' := by
  refine ⟨fun same => ?_, fun ⟨hk, hm, hs⟩ => by rw [hk, hm, hs]⟩
  have texts := congrArg String.toList same
  rw [path_toList, path_toList] at texts
  obtain ⟨hmac, rest⟩ := List.append_inj (List.append_cancel_left texts)
    (by simpa [String.length_toList] using lengths)
  have kinds : kind = kind' := by
    cases kind <;> cases kind' <;> first | rfl | simp [Kind.text] at rest
  subst kinds
  exact ⟨rfl, String.toList_inj.mp hmac, String.toList_inj.mp (List.append_cancel_left rest)⟩

/-! ## The store and the messages are those of writes that are reported -/

/-- The message of a sighting. -/
def Sighting.message (s : Sighting) : Message :=
  ⟨s.kind, s.mac, s.source, s.value, match s.kind with
    | .hostname => none
    | .fingerprint => s.hostname⟩

/-- What a call does: the message is sent if the value is new. -/
theorem see_eq (w : World) (s : Sighting) : w.see s =
    ⟨w.synapse.set s.now (path s.kind s.mac s.source) s.value redisLifetime,
      if w.synapse.get s.now (path s.kind s.mac s.source) = some s.value then w.published
      else w.published ++ [s.message]⟩ := by
  obtain ⟨now, kind, mac, source, value, hostname⟩ := s
  have stored := refresh_snd redisLifetime now (path kind mac source) value w.synapse
  by_cases here : w.synapse.get now (path kind mac source) = some value
  all_goals
    simp only [refresh, here, if_true, if_false] at stored
    cases kind <;> simp [World.see, World.seenHostname, World.seenFingerprint,
      World.storeHostname, World.storeFingerprint, macHostnamePath, macFingerprintPath,
      World.notifyHostname, World.notifyFingerprint, Sighting.message, refresh, here, stored]

theorem after_append (sightings : List Sighting) (s : Sighting) :
    World.after (sightings ++ [s]) = (World.after sightings).see s := by
  simp [World.after, List.foldl_append]

theorem after_eq (sightings : List Sighting) :
    (World.after sightings).synapse =
        (written redisLifetime (sightings.map Sighting.write)).keys ∧
      (World.after sightings).published.map Message.report =
        (written redisLifetime (sightings.map Sighting.write)).told := by
  induction sightings using List.reverseRecOn with
  | nil => exact ⟨rfl, rfl⟩
  | append_singleton sightings s ih =>
    obtain ⟨keys, told⟩ := ih
    rw [List.map_append, List.map_singleton, written_append, after_append, see_eq, keys_write,
      told_write, ← keys, ← told]
    refine ⟨rfl, ?_⟩
    by_cases here : (World.after sightings).synapse.get s.now (path s.kind s.mac s.source) =
      some s.value
    · simp [Sighting.write, here]
    · simp [Sighting.write, here, Message.report, Sighting.message]

/-- The last of what is selected, in another list that it comes from. -/
theorem getLast_filter_map {α β : Type} (f : α → β) (p : α → Bool) (q : β → Bool) {l : List α}
    (h : ∀ a ∈ l, q (f a) = p a) :
    ((l.map f).filter q).getLast? = ((l.filter p).getLast?).map f := by
  rw [List.filter_map, List.getLast?_map]
  congr 2
  exact List.filter_congr fun a ha => h a ha

theorem last_write {n : ℕ} {sightings : List Sighting} (macs : ∀ s ∈ sightings, s.mac.length = n)
    {mac : String} (hmac : mac.length = n) (kind : Kind) (source : String) :
    last (sightings.map Sighting.write) (path kind mac source) =
      (lastSighting sightings kind mac source).map Sighting.write := by
  refine getLast_filter_map _ _ _ fun s hs => decide_eq_decide.mpr ?_
  exact path_inj ((macs s hs).trans hmac.symm)

theorem heard_report {n : ℕ} {published : List Message}
    (macs : ∀ m ∈ published, m.mac.length = n) {mac : String} (hmac : mac.length = n)
    (kind : Kind) (source : String) :
    heard (published.map Message.report) (path kind mac source) =
      lastTold published kind mac source := by
  have selected := getLast_filter_map Message.report
    (fun m => decide (m.kind = kind ∧ m.mac = mac ∧ m.source = source))
    (fun r => decide (r.1 = path kind mac source)) (l := published)
    fun m hm => decide_eq_decide.mpr (path_inj ((macs m hm).trans hmac.symm))
  rw [heard, selected, Option.map_map]
  rfl

/-- What is published is about the MACs that are seen. -/
theorem published_macs {n : ℕ} {sightings : List Sighting}
    (macs : ∀ s ∈ sightings, s.mac.length = n) :
    ∀ m ∈ (World.after sightings).published, m.mac.length = n := by
  induction sightings using List.reverseRecOn with
  | nil => simp [World.after, World.empty]
  | append_singleton sightings s ih =>
    intro m hm
    have old := ih fun s hs => macs s (List.mem_append_left _ hs)
    rw [after_append, see_eq] at hm
    dsimp only at hm
    split at hm
    · exact old m hm
    · rcases List.mem_append.mp hm with hm | hm
      · exact old m hm
      · obtain rfl := List.mem_singleton.mp hm
        exact macs s (by simp)

/-- For each kind, MAC and source, the store has the value of the last sighting for sixty
days, and whoever keeps the last message has it for ever: what is not told is there. -/
theorem attributes_known {n : ℕ} {sightings : List Sighting}
    (macs : ∀ s ∈ sightings, s.mac.length = n) {mac : String} (hmac : mac.length = n)
    (kind : Kind) (source : String) :
    (∀ now, (World.after sightings).synapse.get now (path kind mac source) =
      (lastSighting sightings kind mac source).bind fun s =>
        if now < s.now + redisLifetime then some s.value else none) ∧
    lastTold (World.after sightings).published kind mac source =
      (lastSighting sightings kind mac source).map Sighting.value := by
  obtain ⟨keys, told⟩ := after_eq sightings
  constructor
  · intro now
    rw [keys, get_written, last_write macs hmac]
    cases lastSighting sightings kind mac source <;> rfl
  · rw [← heard_report (published_macs macs) hmac, told, heard_written, last_write macs hmac,
      Option.map_map]
    rfl

/-- A laptop tells its name twice, and its fingerprint. -/
def laptop : List Sighting :=
  [⟨100, .hostname, "aa:bb:cc:dd:ee:01", "DHCPV4", .name "laptop", none⟩,
    ⟨200, .fingerprint, "aa:bb:cc:dd:ee:01", "DHCPV4", .fingerprint "1,3,6" "MSFT 5.0" none,
      some (.name "laptop")⟩,
    ⟨300, .hostname, "aa:bb:cc:dd:ee:01", "DHCPV4", .name "laptop", none⟩]

theorem laptop_known :
    (World.after laptop).published.length = 2 ∧
      lastTold (World.after laptop).published .hostname "aa:bb:cc:dd:ee:01" "DHCPV4" =
        some (.name "laptop") := by
  refine ⟨by decide +kernel, ?_⟩
  rw [(attributes_known (n := 17) (by decide) (by decide) .hostname "DHCPV4").2]
  decide

/-! ## Reading a key back -/

/-- A MAC, in lower case. -/
def IsMac (mac : String) : Prop := mac ≠ "" ∧ ∀ c ∈ mac.toList, c ∈ "0123456789abcdef:".toList

/-- The name of a source is a word. -/
def IsSource (source : String) : Prop := source ≠ "" ∧ ∀ c ∈ source.toList, c ≠ ':' ∧ c ≠ '\n'

instance : DecidablePred IsMac := fun mac =>
  decidable_of_iff (mac ≠ "" ∧ mac.toList.all fun c => c ∈ "0123456789abcdef:".toList)
    (by simp only [IsMac, List.all_eq_true, decide_eq_true_eq])

instance : DecidablePred IsSource := fun source =>
  decidable_of_iff (source ≠ "" ∧ source.toList.all fun c => c ≠ ':' ∧ c ≠ '\n')
    (by simp only [IsSource, List.all_eq_true, decide_eq_true_eq])

/-- What is left after a run of accepted characters is tried before what is left in it. -/
theorem runs_reverse {accepts : Char → Bool} {xs : List Char} (nonempty : xs ≠ [])
    (accepted : ∀ c ∈ xs, accepts c) (ys : List Char) : ∃ more,
      (Regex.runs accepts (xs ++ ys)).reverse = (Regex.runs accepts ys).reverse ++ ys :: more := by
  induction xs with
  | nil => exact absurd rfl nonempty
  | cons x xs ih =>
    have first : Regex.runs accepts (x :: xs ++ ys) = (xs ++ ys) :: Regex.runs accepts (xs ++ ys) := by
      rw [List.cons_append, Regex.runs, if_pos (accepted x List.mem_cons_self)]
    cases xs with
    | nil => exact ⟨[], by rw [first]; simp⟩
    | cons x' xs =>
      obtain ⟨more, same⟩ := ih (by simp) fun c hc => accepted c (List.mem_cons_of_mem _ hc)
      exact ⟨more ++ [x' :: xs ++ ys], by rw [first, List.reverse_cons, same]; simp⟩

theorem suffix_of_mem_runs {accepts : Char → Bool} {text rest : List Char}
    (h : rest ∈ Regex.runs accepts text) : rest <:+ text.tail := by
  induction text with
  | nil => simp [Regex.runs] at h
  | cons c text ih =>
    rw [Regex.runs] at h
    split at h
    · rcases List.mem_cons.mp h with rfl | h
      · exact List.suffix_rfl
      · exact (ih h).trans (List.tail_suffix text)
    · cases h

theorem first_literal_seq (part text : List Char) (r : Regex) :
    (Regex.seq (.literal part) r).first (part ++ text) = r.first text := by
  rw [Regex.first_seq, Regex.decides_literal part (part ++ text)]
  simp

theorem first_literal_none {part text : List Char} (h : ¬ part <+: text) (r : Regex) :
    (Regex.seq (.literal part) r).first text = none := by
  rw [Regex.first_seq, Regex.decides_literal part text]
  simp [h]

/-- The separator of a kind, between a MAC and a source. -/
theorem separator_count (kind : Kind) : (":" ++ kind.text ++ ":").toList.count ':' = 2 := by
  cases kind <;> decide

theorem separator_tail_count (kind : Kind) : (":" ++ kind.text ++ ":").toList.tail.count ':' = 1 := by
  cases kind <;> decide

/-- The key of a MAC and a source is read as such: no later separator can be meant, since the
source has no colon. -/
theorem parsePath_path (kind : Kind) {mac source : String} (hmac : IsMac mac)
    (hsource : IsSource source) : parsePath kind (path kind mac source) = some (mac, source) := by
  have line : ∀ c ∈ mac.toList, (decide (c ≠ '\n')) = true := by
    intro c hc
    refine decide_eq_true ?_
    rintro rfl
    exact absurd (hmac.2 _ hc) (by decide)
  have sourceLine : ∀ c ∈ source.toList, (decide (c ≠ '\n')) = true := fun c hc =>
    decide_eq_true (hsource.2 c hc).2
  have macNonempty : mac.toList ≠ [] := by simpa using hmac.1
  have sourceNonempty : source.toList ≠ [] := by simpa using hsource.1
  have noColon : source.toList.count ':' = 0 :=
    List.count_eq_zero.mpr fun hc => (hsource.2 _ hc).1 rfl
  generalize hsep : (":" ++ kind.text ++ ":").toList = sep
  have tail : ∀ rest, rest <:+ (sep ++ source.toList).tail → ¬ sep <+: rest := by
    intro rest hsuffix hprefix
    have upper := hsuffix.sublist.count_le ':'
    have lower := hprefix.sublist.count_le ':'
    have two := hsep ▸ separator_count kind
    have one := hsep ▸ separator_tail_count kind
    rw [List.tail_append_of_ne_nil (by rintro rfl; simp at two), List.count_append, one,
      noColon] at upper
    omega
  obtain ⟨more, order⟩ := runs_reverse macNonempty line (sep ++ source.toList)
  have last : (Regex.seq (.literal sep) (.group "source" (.longest (· ≠ '\n')))).first
      (sep ++ source.toList) = some ⟨[("source", source.toList)], []⟩ := by
    rw [first_literal_seq, Regex.first_group_longest, List.takeWhile_eq_self_iff.mpr sourceLine,
      List.dropWhile_eq_nil_iff.mpr sourceLine, if_neg sourceNonempty]
  have whole : (pathPattern kind).first (path kind mac source).toList =
      some ⟨[("mac", mac.toList), ("source", source.toList)], []⟩ := by
    rw [path_toList, pathPattern, hsep, first_literal_seq, Regex.first_seq, Regex.ways,
      Regex.ways, order, List.map_append, List.map_append, List.findSome?_append]
    have skipped : (List.map (Regex.Match.named "mac" (mac.toList ++ (sep ++ source.toList)))
        (List.map (fun rest => ⟨[], rest⟩) (Regex.runs (fun c => decide (c ≠ '\n'))
          (sep ++ source.toList)).reverse)).findSome? (fun m =>
        ((Regex.seq (.literal sep) (.group "source" (.longest (· ≠ '\n')))).first m.rest).map
          m.andThen) = none := by
      rw [List.findSome?_eq_none_iff]
      intro m hm
      simp only [List.map_map, List.mem_map, List.mem_reverse, Function.comp] at hm
      obtain ⟨rest, hrest, rfl⟩ := hm
      rw [Regex.rest_named, first_literal_none (tail rest (suffix_of_mem_runs hrest))]
      rfl
    rw [skipped, Option.none_or, List.map_cons, List.map_cons, List.findSome?_cons,
      Regex.named_append, last]
    rfl
  rw [parsePath, whole]
  simp [Regex.Match.get]

/-! ## All that is known -/

/-- The message of a key, if it has a value. -/
def known (kind : Kind) (now : ℚ) (synapse : Keys String Attribute) (key : String) :
    Option Message := do
  let (mac, source) ← parsePath kind key
  let value ← synapse.get now key
  if value.truthy then
    let hostname := synapse.get now (macHostnamePath mac source)
    some ⟨kind, mac, source, value, match kind with
      | .hostname => none
      | .fingerprint => if hostname.any Attribute.truthy then hostname else some (.name "")⟩
  else none

/-- One turn of either loop. -/
def notifyTurn (kind : Kind) (now : ℚ) (r : ℕ × World) (key : String) : ℕ × World :=
  match known kind now r.2.synapse key with
  | none => r
  | some m => (r.1 + 1, ⟨r.2.synapse, r.2.published ++ [m]⟩)

theorem notifyKnown_eq (kind : Kind) (now : ℚ) (scanned : List String) (w : World) :
    w.notifyKnown kind now scanned = scanned.foldl (notifyTurn kind now) (0, w) := by
  have turns : World.notifyKnownHostname now = notifyTurn .hostname now ∧
      World.notifyKnownFingerprint now = notifyTurn .fingerprint now := by
    constructor
    all_goals
      funext r key
      simp only [notifyTurn, known, World.notifyKnownHostname, World.notifyKnownFingerprint]
      cases hp : parsePath _ key with
      | none => simp
      | some parsed =>
        cases hv : r.2.synapse.get now key with
        | none => simp
        | some value => cases ht : value.truthy <;>
            simp [ht, World.notifyHostname, World.notifyFingerprint]
  cases kind
  · rw [World.notifyKnown, World.notifyKnownHostnames, turns.1]
  · rw [World.notifyKnown, World.notifyKnownFingerprints, turns.2]

theorem notifyTurns (kind : Kind) (now : ℚ) (scanned : List String) (count : ℕ) (w : World) :
    scanned.foldl (notifyTurn kind now) (count, w) =
      (count + (scanned.filterMap (known kind now w.synapse)).length,
        ⟨w.synapse, w.published ++ scanned.filterMap (known kind now w.synapse)⟩) := by
  induction scanned generalizing count w with
  | nil => simp
  | cons key scanned ih =>
    rw [List.foldl_cons, notifyTurn]
    cases hm : known kind now w.synapse key with
    | none => simp only [ih, List.filterMap_cons_none hm]
    | some m =>
      simp only [ih, List.filterMap_cons_some hm, List.length_cons, List.append_assoc,
        List.singleton_append]
      grind

/-- The keys of a kind that `scan_iter` enumerates, each once or more. -/
def Scanned (kind : Kind) (now : ℚ) (w : World) (scanned : List String) : Prop :=
  ∀ key, key ∈ scanned ↔
    w.synapse.get now key ≠ none ∧ ∃ mac source, key = path kind mac source

/-- The last separator of a text is not before any other. -/
theorem prefix_of_last {α : Type} {sep : α} {before before' last last' : List α}
    (same : before ++ sep :: last = before' ++ sep :: last') (h : sep ∉ last) :
    before' <+: before := by
  rcases List.append_eq_append_iff.mp same with ⟨more, hb, hl⟩ | ⟨more, hb, -⟩
  · cases more with
    | nil => exact ⟨[], by simp [hb]⟩
    | cons c more =>
      obtain ⟨-, rfl⟩ := List.cons.inj hl
      exact absurd (by simp) h
  · exact ⟨more, hb.symm⟩

/-- The key of a MAC and a source is of no other kind. -/
theorem kind_of_path {kind kind' : Kind} {mac mac' source source' : String} (hmac : IsMac mac)
    (hsource : IsSource source) (same : path kind mac source = path kind' mac' source') :
    kind' = kind := by
  have texts : ("mac:" ++ mac ++ ":" ++ kind.text).toList ++ ':' :: source.toList =
      ("mac:" ++ mac' ++ ":" ++ kind'.text).toList ++ ':' :: source'.toList := by
    simpa [path] using congrArg String.toList same
  have within := (prefix_of_last texts fun hc => (hsource.2 _ hc).1 rfl).subset
  have letters : kind'.text.toList.all fun c => c ∈ "mac:".toList ∨
      c ∈ "0123456789abcdef:".toList ∨ c ∈ ":".toList ∨ c ∈ kind.text.toList := by
    refine List.all_eq_true.mpr fun c hc => decide_eq_true ?_
    have here : c ∈ ("mac:" ++ mac ++ ":" ++ kind.text).toList := within (by simp [hc])
    simp only [String.toList_append, List.mem_append] at here
    rcases here with ((here | here) | here) | here
    · exact .inl here
    · exact .inr (.inl (hmac.2 c here))
    · exact .inr (.inr (.inl here))
    · exact .inr (.inr (.inr here))
  cases kind <;> cases kind' <;> first | rfl | exact absurd letters (by decide)

/-- Where all of a list have one value, so does the last. -/
theorem getLast_map_of_forall {α β : Type} {f : α → β} {b : β} {l : List α}
    (h : ∀ a ∈ l, f a = b) : (l.getLast?).map f = if l = [] then none else some b := by
  cases hl : l.getLast? with
  | none => simp [List.getLast?_eq_none_iff.mp hl]
  | some a =>
    have member := List.mem_of_getLast? hl
    rw [Option.map_some, h a member, if_neg (List.ne_nil_of_mem member)]

/-- The value of the last sighting, if it is not older than sixty days and not empty. -/
def lastKnown (sightings : List Sighting) (now : ℚ) (kind : Kind) (mac source : String) :
    Option Attribute :=
  (lastSighting sightings kind mac source).bind fun s =>
    if now < s.now + redisLifetime ∧ s.value.truthy then some s.value else none

/-- The sightings are of MACs of one length, by sources. -/
def Proper (n : ℕ) (sightings : List Sighting) : Prop :=
  ∀ s ∈ sightings, s.mac.length = n ∧ IsMac s.mac ∧ IsSource s.source

section Known

variable {n : ℕ} {sightings : List Sighting} {now : ℚ} {kind : Kind} {scanned : List String}

theorem get_lastKnown (proper : Proper n sightings) {mac : String} (hmac : mac.length = n)
    (now : ℚ) (kind : Kind) (source : String) :
    ((World.after sightings).synapse.get now (path kind mac source)).filter Attribute.truthy =
      lastKnown sightings now kind mac source := by
  rw [(after_eq sightings).1, get_written, last_write (fun s hs => (proper s hs).1) hmac,
    lastKnown]
  cases lastSighting sightings kind mac source with
  | none => rfl
  | some s =>
    change (if now < s.now + redisLifetime then some s.value else none).filter _ = _
    rw [Option.bind_some]
    split <;> cases ht : s.value.truthy <;> simp_all

/-- A key that is there is of a sighting. -/
theorem exists_sighting {key : String} (there : (World.after sightings).synapse.get now key ≠ none) :
    ∃ s ∈ sightings, key = path s.kind s.mac s.source := by
  rw [(after_eq sightings).1, get_written] at there
  cases hlast : last (sightings.map Sighting.write) key with
  | none => simp [hlast] at there
  | some w =>
    have member := List.mem_of_getLast? hlast
    rw [List.mem_filter, List.mem_map] at member
    obtain ⟨⟨s, hs, rfl⟩, same⟩ := member
    exact ⟨s, hs, (of_decide_eq_true same).symm⟩

/-- What is enumerated are the keys of sightings of the kind. -/
theorem scanned_proper (proper : Proper n sightings)
    (scan : Scanned kind now (World.after sightings) scanned) {key : String} (h : key ∈ scanned) :
    ∃ mac source, key = path kind mac source ∧ mac.length = n ∧ IsMac mac ∧ IsSource source := by
  obtain ⟨there, mac, source, rfl⟩ := (scan key).mp h
  obtain ⟨s, hs, same⟩ := exists_sighting there
  obtain ⟨hlength, hmac, hsource⟩ := proper s hs
  have hkind := kind_of_path hmac hsource same.symm
  exact ⟨s.mac, s.source, hkind ▸ same, hlength, hmac, hsource⟩

/-- The host name that goes with a fingerprint is the one of the same source. -/
def knownHostname (sightings : List Sighting) (now : ℚ) (kind : Kind) (mac source : String) :
    Option Attribute :=
  match kind with
  | .hostname => none
  | .fingerprint => some ((lastKnown sightings now .hostname mac source).getD (.name ""))

theorem known_path (proper : Proper n sightings) (now : ℚ) (kind : Kind) {mac source : String}
    (hlength : mac.length = n) (hmac : IsMac mac) (hsource : IsSource source) :
    known kind now (World.after sightings).synapse (path kind mac source) =
      (lastKnown sightings now kind mac source).map fun value =>
        ⟨kind, mac, source, value, knownHostname sightings now kind mac source⟩ := by
  unfold known knownHostname macHostnamePath
  rw [parsePath_path kind hmac hsource, ← get_lastKnown proper hlength,
    ← get_lastKnown proper hlength]
  cases (World.after sightings).synapse.get now (path kind mac source) with
  | none => rfl
  | some value =>
    cases ht : value.truthy with
    | false => simp [ht]
    | true =>
      cases kind with
      | hostname => simp [ht]
      | fingerprint =>
        cases hname : (World.after sightings).synapse.get now (path .hostname mac source) with
        | none => simp [ht, hname]
        | some name => cases hn : name.truthy <;> simp [ht, hname, hn, Option.filter]

/-- On request, what is told of the MACs and the sources is what the last sightings of the
last sixty days say: whoever has only just begun to listen knows it as well as whoever
always has. The count is that of the messages, and a fingerprint has the host name that
the same source tells. -/
theorem notifyKnown_tells (proper : Proper n sightings)
    (scan : Scanned kind now (World.after sightings) scanned) :
    ∃ news, (World.after sightings).notifyKnown kind now scanned =
        (news.length, ⟨(World.after sightings).synapse,
          (World.after sightings).published ++ news⟩) ∧
      (∀ m ∈ news, m.kind = kind ∧
        m.hostname = knownHostname sightings now kind m.mac m.source) ∧
      ∀ mac source, mac.length = n → IsMac mac → IsSource source →
        lastTold news kind mac source = lastKnown sightings now kind mac source := by
  refine ⟨scanned.filterMap (known kind now (World.after sightings).synapse), ?_, ?_, ?_⟩
  · rw [notifyKnown_eq, notifyTurns, Nat.zero_add]
  · intro m hm
    obtain ⟨key, hkey, told⟩ := List.mem_filterMap.mp hm
    obtain ⟨mac, source, rfl, hlength, hmac, hsource⟩ := scanned_proper proper scan hkey
    rw [known_path proper now kind hlength hmac hsource] at told
    obtain ⟨value, -, rfl⟩ := Option.map_eq_some_iff.mp told
    exact ⟨rfl, rfl⟩
  · intro mac source hlength hmac hsource
    -- every message about the two has the value, and there is one if there is a value
    have values : ∀ m ∈ scanned.filterMap (known kind now (World.after sightings).synapse),
        m.mac = mac → m.source = source →
          lastKnown sightings now kind mac source = some m.value := by
      rintro m hm rfl rfl
      obtain ⟨key, hkey, told⟩ := List.mem_filterMap.mp hm
      obtain ⟨mac, source, rfl, hlength', hmac', hsource'⟩ := scanned_proper proper scan hkey
      rw [known_path proper now kind hlength' hmac' hsource'] at told
      obtain ⟨value, hvalue, rfl⟩ := Option.map_eq_some_iff.mp told
      exact hvalue
    cases hknown : lastKnown sightings now kind mac source with
    | none =>
      rw [lastTold, Option.map_eq_none_iff, List.getLast?_eq_none_iff, List.filter_eq_nil_iff]
      intro m hm selected
      obtain ⟨-, same, same'⟩ := of_decide_eq_true selected
      exact Option.some_ne_none _ ((values m hm same same').symm.trans hknown)
    | some value =>
      have there : (World.after sightings).synapse.get now (path kind mac source) ≠ none := by
        intro absent
        have := get_lastKnown proper hlength now kind source
        rw [absent, hknown] at this
        cases this
      have told : known kind now (World.after sightings).synapse (path kind mac source) =
          some ⟨kind, mac, source, value, knownHostname sightings now kind mac source⟩ := by
        rw [known_path proper now kind hlength hmac hsource, hknown, Option.map_some]
      have member := List.mem_filterMap.mpr
        ⟨_, (scan _).mpr ⟨there, mac, source, rfl⟩, told⟩
      rw [lastTold, getLast_map_of_forall (b := value), if_neg]
      · exact List.ne_nil_of_mem (List.mem_filter.mpr ⟨member, by simp⟩)
      · intro m hm
        obtain ⟨hm, selected⟩ := List.mem_filter.mp hm
        obtain ⟨-, same, same'⟩ := of_decide_eq_true selected
        exact Option.some.inj ((values m hm same same').symm.trans hknown)

end Known

theorem laptop_proper : Proper 17 laptop := by
  intro s hs
  simp only [laptop, List.mem_cons, List.not_mem_nil, or_false] at hs
  rcases hs with rfl | rfl | rfl <;>
    exact ⟨by decide, by decide, by decide⟩

theorem laptop_scanned : Scanned .fingerprint 400 (World.after laptop)
    [path .fingerprint "aa:bb:cc:dd:ee:01" "DHCPV4"] := by
  intro key
  rw [List.mem_singleton]
  constructor
  · rintro rfl
    exact ⟨by decide +kernel, _, _, rfl⟩
  · rintro ⟨there, mac, source, rfl⟩
    obtain ⟨s, hs, same⟩ := exists_sighting there
    obtain ⟨-, hmac, hsource⟩ := laptop_proper s hs
    have kind := kind_of_path hmac hsource same.symm
    simp only [laptop, List.mem_cons, List.not_mem_nil, or_false] at hs
    rcases hs with rfl | rfl | rfl
    · cases kind
    · exact same
    · cases kind

theorem laptop_tells : ∃ news, (World.after laptop).notifyKnown .fingerprint 400
      [path .fingerprint "aa:bb:cc:dd:ee:01" "DHCPV4"] =
        (news.length, ⟨(World.after laptop).synapse, (World.after laptop).published ++ news⟩) ∧
    lastTold news .fingerprint "aa:bb:cc:dd:ee:01" "DHCPV4" =
      some (.fingerprint "1,3,6" "MSFT 5.0" none) := by
  obtain ⟨news, result, -, told⟩ := notifyKnown_tells laptop_proper laptop_scanned
  refine ⟨news, result, ?_⟩
  rw [told "aa:bb:cc:dd:ee:01" "DHCPV4" (by decide) (by decide) (by decide)]
  decide +kernel

end ElanAgent.Device
