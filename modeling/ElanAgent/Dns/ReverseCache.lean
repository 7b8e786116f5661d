import ElanAgent.Library.Chase
import ElanAgent.Library.Redis

/-!
# The cache of reverse DNS names

`elan/rdns.py` and the tracker of DNS responses that fills it. An entry leads from an
address, or from the target of an alias, to the name that was asked for; it is kept for the
MAC that asked and for the wildcard. `_get_cached_rdns` calls itself on the name it finds,
so that it returns where the entries end. Nothing keeps aliases from forming a cycle.
-/

namespace ElanAgent.Dns

open Redis Chase

/-- `RDNS_PATH`. -/
def rdnsPath (mac source : String) : String := "rdns:" ++ mac ++ ":" ++ source

/-- The MAC under which the latest entry of any device is kept. -/
def wildcard : String := "*"

/-- The Redis keys of the cache, each with its value and the time at which it expires. -/
abbrev Cache := Hash String (String × ℚ)

namespace Cache

/-- `GET key`. -/
def get (cache : Cache) (now : ℚ) (key : String) : Option String :=
  (cache.lookup key).bind fun (value, expiry) => if now < expiry then some value else none

/-- `SET key value EX seconds`. -/
def set (cache : Cache) (now : ℚ) (key value : String) (seconds : ℕ) : Cache :=
  cache.insert key (value, now + seconds)

/-- The entry that `mac` has for `source`. -/
def entry (cache : Cache) (now : ℚ) (mac source : String) : Option String :=
  cache.get now (rdnsPath mac source)

end Cache

/-! ## Filling the cache -/

/-- What `add_entries` takes. -/
structure Entry where
  mac : String
  source : String
  ttl : ℕ
  rdns : String

/-- Set the entry for its MAC and for any MAC. It is kept a little longer than its TTL. -/
def addEntry (now : ℚ) (cache : Cache) (entry : Entry) : Cache :=
  let expiry := entry.ttl + 60
  (cache.set now (rdnsPath entry.mac entry.source) entry.rdns expiry).set now
    (rdnsPath wildcard entry.source) entry.rdns expiry

def addEntries (now : ℚ) (cache : Cache) (entries : List Entry) : Cache :=
  entries.foldl (addEntry now) cache

/-- A DNS response as the dissector presents it: the name, type and TTL of each record, and
apart from them the values of the CNAME, A and AAAA records, if there are any. -/
structure Response where
  ethDst : String
  records : List (String × String × ℕ)
  cname : Option (List String)
  a : Option (List String)
  aaaa : Option (List String)

/-- `next` on the iterator of a field: `none` when it raises, since the packet has no such
field or no further value. -/
def takeValue (field : Option (List String)) : Option (String × Option (List String)) :=
  match field with
  | some (value :: rest) => some (value, some rest)
  | _ => none

/-- The loop of `process_packet`; the fields hold the values that are still to be taken. -/
def responseEntries (mac : String) : List (String × String × ℕ) → Option (List String) →
    Option (List String) → Option (List String) → Option (List Entry)
  | [], _, _, _ => some []
  | (name, type, ttl) :: records, cname, a, aaaa =>
    if type = "5" then do
      let (value, cname) ← takeValue cname
      let entries ← responseEntries mac records cname a aaaa
      some (⟨mac, value, ttl, name⟩ :: entries)
    else if type = "1" then do
      let (value, a) ← takeValue a
      let entries ← responseEntries mac records cname a aaaa
      some (⟨mac, value, ttl, name⟩ :: entries)
    else if type = "28" then do
      let (value, aaaa) ← takeValue aaaa
      let entries ← responseEntries mac records cname a aaaa
      some (⟨mac, value, ttl, name⟩ :: entries)
    else responseEntries mac records cname a aaaa

/-- `DnsResponseTracker.process_packet`. What it raises, it only notifies. -/
def processPacket (now : ℚ) (cache : Cache) (packet : Response) : Cache :=
  match responseEntries packet.ethDst packet.records packet.cname packet.a packet.aaaa with
  | some entries => addEntries now cache entries
  | none => cache

/-! ## Reading the cache -/

inductive Error where
  | recursion
  deriving DecidableEq, Repr

section Reading

variable (cache : Cache) (now : ℚ)

/-- `_get_cached_rdns`. `frames` is the number of calls of itself that Python's recursion
limit leaves. -/
def lastRdns (mac : String) : ℕ → String → Except Error (Option String)
  | 0, _ => .error .recursion
  | frames + 1, source => do
    match cache.entry now mac source with
    | none => return none
    | some rdns =>
      -- recurse to get last level of rdns
      let lastLevelRdns ← lastRdns mac frames rdns
      match lastLevelRdns with
      | some last => return some (if last ≠ "" then last else rdns)
      | none => return some rdns

/-- The rdns for that MAC, and if there is none, or no MAC, the latest one for any MAC. -/
def getCachedRdns (frames : ℕ) (source : String) (mac : Option String) :
    Except Error (Option String) := do
  match mac with
  | none => lastRdns cache now wildcard frames source
  | some mac =>
    let rdns ← lastRdns cache now mac frames source
    match rdns with
    | none => lastRdns cache now wildcard frames source
    | some rdns => return some rdns

end Reading

/-! ## What the cache can hold -/

/-- Every value of the cache is a name. -/
def Cache.Named (cache : Cache) : Prop :=
  ∀ key value expiry, cache.lookup key = some (value, expiry) → value ≠ ""

/-- The caches that DNS responses can leave, with the time of the last event. -/
inductive Reachable : ℚ → Cache → Prop
  | empty (now : ℚ) : Reachable now ∅
  | wait {now later : ℚ} {cache : Cache} (before : Reachable now cache) (le : now ≤ later) :
      Reachable later cache
  | packet {now : ℚ} {cache : Cache} (before : Reachable now cache) (packet : Response)
      (named : ∀ record ∈ packet.records, record.1 ≠ "") :
      Reachable now (processPacket now cache packet)

theorem named_set {cache : Cache} (named : cache.Named) {value : String} (name : value ≠ "")
    (now : ℚ) (key : String) (seconds : ℕ) : (cache.set now key value seconds).Named := by
  intro key' value' expiry h
  rw [Cache.set, lookup_insert_ite] at h
  split at h
  · cases h
    exact name
  · exact named key' value' expiry h

theorem named_addEntries {cache : Cache} (named : cache.Named) {entries : List Entry}
    (names : ∀ entry ∈ entries, entry.rdns ≠ "") (now : ℚ) :
    (addEntries now cache entries).Named := by
  induction entries generalizing cache with
  | nil => exact named
  | cons entry entries ih =>
    obtain ⟨name, names⟩ := List.forall_mem_cons.mp names
    exact ih (named_set (named_set named name _ _ _) name _ _ _) names

/-- The entries of a response lead to the names of its records. -/
theorem rdns_responseEntries {mac : String} {records : List (String × String × ℕ)}
    {cname a aaaa : Option (List String)} {entries : List Entry}
    (h : responseEntries mac records cname a aaaa = some entries) {entry : Entry}
    (mem : entry ∈ entries) : ∃ record ∈ records, record.1 = entry.rdns := by
  induction records generalizing cname a aaaa entries with
  | nil =>
    cases h
    cases mem
  | cons record records ih =>
    obtain ⟨name, type, ttl⟩ := record
    have skip {cname a aaaa : Option (List String)} {entries : List Entry}
        (h : responseEntries mac records cname a aaaa = some entries) (mem : entry ∈ entries) :
        ∃ record ∈ (name, type, ttl) :: records, record.1 = entry.rdns := by
      obtain ⟨record, listed, same⟩ := ih h mem
      exact ⟨record, List.mem_cons_of_mem _ listed, same⟩
    -- whichever field the value comes from, the rest of the loop makes the other entries
    have take {field : Option (List String)} (rest : Option (List String) → Option (List Entry))
        (skip : ∀ field entries, rest field = some entries → entry ∈ entries →
          ∃ record ∈ (name, type, ttl) :: records, record.1 = entry.rdns)
        (h : ((takeValue field).bind fun taken => (rest taken.2).bind fun entries =>
          some (⟨mac, taken.1, ttl, name⟩ :: entries)) = some entries) :
        ∃ record ∈ (name, type, ttl) :: records, record.1 = entry.rdns := by
      obtain ⟨⟨value, field⟩, -, h⟩ := Option.bind_eq_some_iff.mp h
      obtain ⟨entries, hrest, h⟩ := Option.bind_eq_some_iff.mp h
      cases h
      rcases List.mem_cons.mp mem with rfl | mem
      · exact ⟨_, List.mem_cons_self, rfl⟩
      · exact skip _ _ hrest mem
    rw [responseEntries] at h
    split at h
    · exact take (fun cname => responseEntries mac records cname a aaaa) (fun _ _ => skip) h
    split at h
    · exact take (fun a => responseEntries mac records cname a aaaa) (fun _ _ => skip) h
    split at h
    · exact take (fun aaaa => responseEntries mac records cname a aaaa) (fun _ _ => skip) h
    · exact skip h mem

theorem Reachable.named {now : ℚ} {cache : Cache} (reachable : Reachable now cache) :
    cache.Named := by
  induction reachable with
  | empty => exact nofun
  | wait _ _ ih => exact ih
  | packet _ packet names ih =>
    unfold processPacket
    split
    · rename_i entries h
      refine named_addEntries ih (fun entry mem => ?_) _
      obtain ⟨record, listed, same⟩ := rdns_responseEntries h mem
      exact same ▸ names record listed
    · exact ih

/-! ## What is read -/

section Read

variable {cache : Cache} {now : ℚ} {frames : ℕ} {source : String}

theorem Cache.Named.entry (named : cache.Named) {mac value : String}
    (h : cache.entry now mac source = some value) : value ≠ "" := by
  obtain ⟨⟨value', expiry⟩, found, alive⟩ := Option.bind_eq_some_iff.mp h
  dsimp only at alive
  split at alive
  · cases alive
    exact named _ _ _ found
  · cases alive

/-- The recursion looks for the end of the entries. -/
theorem lastRdns_eq (named : cache.Named) (mac : String) :
    lastRdns cache now mac frames source =
      match chase (cache.entry now mac) frames source with
      | none => .error .recursion
      | some last => .ok (if cache.entry now mac source = none then none else some last) := by
  induction frames generalizing source with
  | zero => rfl
  | succ frames ih =>
    cases first : cache.entry now mac source with
    | none => simp [lastRdns, chase, first, pure, Except.pure]
    | some rdns =>
      simp only [lastRdns, chase, first, ih]
      cases found : chase (cache.entry now mac) frames rdns with
      | none => rfl
      | some last =>
        obtain ⟨n, -, leads, ended⟩ := chase_eq_some.mp found
        rcases leads.eq_or_step with ⟨-, rfl⟩ | ⟨before, step⟩
        · simp [ended, pure, Except.pure, bind, Except.bind]
        · by_cases more : cache.entry now mac rdns = none
          · have same : last = rdns := by
              cases leads with
              | refl => rfl
              | step h => cases more.symm.trans h
            simp [more, same, pure, Except.pure, bind, Except.bind]
          · simp [more, named.entry step, pure, Except.pure, bind, Except.bind]

/-- The MAC whose entries a query follows: the wildcard when no MAC is given, or when the one
that is given has no entry for `source`. -/
def Cache.followed (cache : Cache) (now : ℚ) (source : String) : Option String → String
  | none => wildcard
  | some mac => if cache.entry now mac source = none then wildcard else mac

theorem getCachedRdns_eq (named : cache.Named) (mac : Option String) :
    getCachedRdns cache now frames source mac =
      match chase (cache.entry now (cache.followed now source mac)) frames source with
      | none => .error .recursion
      | some last => .ok
        (if cache.entry now (cache.followed now source mac) source = none then none
          else some last) := by
  cases mac with
  | none => exact lastRdns_eq named wildcard
  | some mac =>
    by_cases first : cache.entry now mac source = none
    · rw [Cache.followed, if_pos first, ← lastRdns_eq named, getCachedRdns, lastRdns_eq named mac]
      cases frames with
      | zero => rfl
      | succ frames => simp [chase, first, bind, Except.bind]
    · rw [getCachedRdns, lastRdns_eq named mac]
      simp only [Cache.followed, if_neg first]
      cases chase (cache.entry now mac) frames source <;> rfl

end Read

/-! ## Every query -/

/-- The query does not raise. It gives nothing exactly if neither the MAC nor the wildcard has
an entry for `source`, and otherwise a name to which the entries of the one that is followed
lead, the last one unless they come to a cycle. -/
def Resolves (cache : Cache) (now : ℚ) (frames : ℕ) (source : String) (mac : Option String) :
    Prop :=
  let entries := cache.entry now (cache.followed now source mac)
  ∃ rdns, getCachedRdns cache now frames source mac = .ok rdns ∧
    (rdns = none ↔ (∀ m, mac = some m → cache.entry now m source = none) ∧
      cache.entry now wildcard source = none) ∧
    ∀ name, rdns = some name → (∃ n, Leads entries (n + 1) source name) ∧
      (¬Cycles entries source → entries name = none)

theorem followed_eq_none {cache : Cache} {now : ℚ} {source : String} {mac : Option String} :
    cache.entry now (cache.followed now source mac) source = none ↔
      (∀ m, mac = some m → cache.entry now m source = none) ∧
        cache.entry now wildcard source = none := by
  cases mac with
  | none => simp [Cache.followed]
  | some mac =>
    by_cases first : cache.entry now mac source = none <;> simp [Cache.followed, first]

/-- Whatever DNS responses have left in the cache, a query does what it should exactly if the
entries that it follows come to an end, and this before the recursion limit is reached. -/
theorem rdns_resolves_iff {now : ℚ} {cache : Cache} (reachable : Reachable now cache) (frames : ℕ)
    (source : String) (mac : Option String) :
    Resolves cache now frames source mac ↔ ∃ n < frames, ∃ name,
      Ends (cache.entry now (cache.followed now source mac)) n source name := by
  have result : getCachedRdns cache now frames source mac = _ :=
    getCachedRdns_eq reachable.named mac
  rw [Resolves, result]
  generalize hentries : cache.entry now (cache.followed now source mac) = entries at result
  have nothing : entries source = none ↔ (∀ m, mac = some m → cache.entry now m source = none) ∧
      cache.entry now wildcard source = none := hentries ▸ followed_eq_none
  cases found : chase entries frames source with
  | none => exact iff_of_false nofun (chase_eq_none.mp found)
  | some last =>
    obtain ⟨n, less, ends⟩ := chase_eq_some.mp found
    refine iff_of_true ⟨_, rfl, ?_, fun name h => ?_⟩ ⟨n, less, last, ends⟩
    · rw [← nothing]
      split
      · exact iff_of_true rfl ‹_›
      · exact iff_of_false nofun ‹_›
    · split at h
      · cases h
      · cases h
        cases n with
        | zero =>
          obtain ⟨leads, last⟩ := ends
          cases leads
          contradiction
        | succ n => exact ⟨⟨n, ends.1⟩, fun _ => ends.2⟩

/-- The answer that an address has the name `fqdn1`, of which `fqdn2` is an alias. -/
def aliasResponse : Response where
  ethDst := "mac1"
  records := [("fqdn1", "1", 5), ("fqdn2", "5", 6)]
  cname := some ["fqdn1"]
  a := some ["1.2.3.4"]
  aaaa := none

/-- The query for the address finds the alias. -/
theorem resolves_alias :
    Resolves (processPacket 0 ∅ aliasResponse) 0 3 "1.2.3.4" (some "mac2") ↔ ∃ n < 3, ∃ name,
      Ends (Cache.entry (processPacket 0 ∅ aliasResponse) 0
        (Cache.followed (processPacket 0 ∅ aliasResponse) 0 "1.2.3.4" (some "mac2")))
        n "1.2.3.4" name :=
  rdns_resolves_iff (.packet (.empty 0) aliasResponse (by decide)) 3 "1.2.3.4" (some "mac2")

/-- The answer that two names are aliases of each other. -/
def cycleResponse : Response where
  ethDst := "mac1"
  records := [("fqdn1", "5", 60), ("fqdn2", "5", 60)]
  cname := some ["fqdn2", "fqdn1"]
  a := none
  aaaa := none

/-- No recursion limit is high enough for a query that comes to a cycle. -/
theorem cycle_raises :
    Reachable 0 (processPacket 0 ∅ cycleResponse) ∧
      ∀ frames, getCachedRdns (processPacket 0 ∅ cycleResponse) 0 frames "fqdn1" none =
        .error .recursion := by
  have reachable : Reachable 0 (processPacket 0 ∅ cycleResponse) :=
    .packet (.empty 0) cycleResponse (by decide)
  refine ⟨reachable, fun frames => ?_⟩
  have cycles : Cycles (Cache.entry (processPacket 0 ∅ cycleResponse) 0 wildcard) "fqdn1" :=
    ⟨0, 1, "fqdn1", .refl _, .step (b := "fqdn2") (by decide +kernel) (.step (b := "fqdn1")
      (by decide +kernel) (.refl _))⟩
  have endless : chase (Cache.entry (processPacket 0 ∅ cycleResponse) 0 wildcard) frames "fqdn1" =
      none := chase_eq_none.mpr fun ⟨_, _, _, ends⟩ => ends.not_cycles cycles
  rw [getCachedRdns_eq reachable.named none, Cache.followed, endless]

end ElanAgent.Dns
