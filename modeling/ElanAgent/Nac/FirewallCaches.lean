import ElanAgent.Library.Changes
import ElanAgent.Library.Dict
import ElanAgent.Library.Raising
import ElanAgent.Nac.Firewall

/-!
# The caches of the firewall

`fw_allow_mac` as the source has it: two dictionaries of sets that are changed element by
element while the loops run, an nft command for each change. `Caches.firewall` forgets the
dictionaries' entries and the commands' order, and `fwAllowMac` then is the change of
`Firewall` that the rest of the development uses.
-/

namespace ElanAgent.Nac

open Raising

/-- Access on a VLAN, and the bridge to one: a dictionary and an nft set each. -/
inductive Access where
  | allowOn
  | bridgeTo
  deriving DecidableEq, Repr

/-- A line of standard input of `nft -i`. The elements are `mac . vlan`, of `mac_on_vlan` for
`allowOn` and of `mac_to_vlan` for `bridgeTo`. -/
inductive NftLine where
  | element (change : Change (Access × String × String))
  | quit
  deriving DecidableEq, Repr

def NftLine.change? : NftLine → Option (Change (Access × String × String))
  | .element change => some change
  | .quit => none

/-- `fw_mac_allowed_vlans` and `fw_mac_bridged_vlans`, and the lines sent so far. -/
structure Caches where
  entries : Access → Dict String (Finset String)
  emitted : List NftLine

namespace Caches

def empty : Caches := ⟨fun _ => .empty, []⟩

/-- `fw_allowed_vlans(mac)` and `fw_bridged_vlans(mac)`. -/
def vlans (c : Caches) (access : Access) (mac : String) : Finset String :=
  ((c.entries access).get mac).getD ∅

def setEntries (c : Caches) (access : Access) (entries : Dict String (Finset String)) : Caches :=
  { c with entries := Function.update c.entries access entries }

end Caches

inductive CacheError where
  | keyError (vlan : String)
  deriving DecidableEq, Repr

/-- Take a VLAN from the entry of `mac`, and the entry away with its last VLAN. -/
def fwCacheDel (access : Access) (mac vlan : String) : Raising CacheError Caches Unit := do
  let c ← get
  match (c.entries access).get mac with
  | none => pure ()
  | some vlans =>
    if vlans = ∅ then pure ()
    else if vlan ∈ vlans then
      if vlans.erase vlan = ∅ then set (c.setEntries access ((c.entries access).erase mac))
      else set (c.setEntries access ((c.entries access).set mac (vlans.erase vlan)))
    else throw (.keyError vlan)

def fwCacheAllowOnDel : String → String → Raising CacheError Caches Unit := fwCacheDel .allowOn
def fwCacheBridgeToDel : String → String → Raising CacheError Caches Unit := fwCacheDel .bridgeTo

/-- Add a VLAN to the entry of `mac`, which may be missing. -/
def fwCacheAdd (access : Access) (mac vlan : String) : Raising CacheError Caches Unit := do
  let c ← get
  match (c.entries access).get mac with
  | none => set (c.setEntries access ((c.entries access).set mac {vlan}))
  | some vlans =>
    if vlans = ∅ then set (c.setEntries access ((c.entries access).set mac {vlan}))
    else set (c.setEntries access ((c.entries access).set mac (insert vlan vlans)))

def fwCacheAllowOnAdd : String → String → Raising CacheError Caches Unit := fwCacheAdd .allowOn
def fwCacheBridgeToAdd : String → String → Raising CacheError Caches Unit := fwCacheAdd .bridgeTo

def nft (line : NftLine) : Raising CacheError Caches Unit :=
  modify fun c => { c with emitted := c.emitted ++ [line] }

/-- An order in which a loop may go through a set. -/
structure Iteration (s : Finset String) where
  list : List String
  nodup : list.Nodup
  mem : ∀ v, v ∈ list ↔ v ∈ s

/-- The orders in which the loops of one call go through their sets. -/
structure Orders where
  closing : Access → ∀ s : Finset String, Iteration s
  opening : Access → ∀ s : Finset String, Iteration s

/-- The two loops on one of the caches. -/
def fwProgram (orders : Orders) (access : Access)
    (cacheDel cacheAdd : String → String → Raising CacheError Caches Unit) (mac : String)
    (wanted : List String) : Raising CacheError Caches Unit := do
  let c ← get
  (orders.closing access (c.vlans access mac \ wanted.toFinset)).list.forM fun vlan => do
    cacheDel mac vlan
    nft (.element (.delete (access, mac, vlan)))
  let c ← get
  (orders.opening access (wanted.toFinset \ c.vlans access mac)).list.forM fun vlan => do
    cacheAdd mac vlan
    nft (.element (.add (access, mac, vlan)))

/-- Open access on the VLANs specified and close all the others. -/
def Caches.fwAllowMac (orders : Orders) (mac : String) (allowOn bridgeTo : Option (List String)) :
    Raising CacheError Caches Unit := do
  fwProgram orders .allowOn fwCacheAllowOnDel fwCacheAllowOnAdd mac (allowOn.getD [])
  fwProgram orders .bridgeTo fwCacheBridgeToDel fwCacheBridgeToAdd mac (bridgeTo.getD [])
  nft .quit

def Caches.fwDisallowMac (orders : Orders) (mac : String) : Raising CacheError Caches Unit :=
  Caches.fwAllowMac orders mac none none

/-- A call of `fw_allow_mac` or `fw_disallow_mac`. -/
inductive FwCall where
  | allow (orders : Orders) (mac : String) (allowOn bridgeTo : Option (List String))
  | disallow (orders : Orders) (mac : String)

namespace FwCall

def run : FwCall → Raising CacheError Caches Unit
  | .allow orders mac allowOn bridgeTo => Caches.fwAllowMac orders mac allowOn bridgeTo
  | .disallow orders mac => Caches.fwDisallowMac orders mac

def mac : FwCall → String
  | .allow _ mac _ _ | .disallow _ mac => mac

/-- `set(on)` and `set(to)`. -/
def wanted : FwCall → Access → Finset String
  | .allow _ _ allowOn _, .allowOn => (allowOn.getD []).toFinset
  | .allow _ _ _ bridgeTo, .bridgeTo => (bridgeTo.getD []).toFinset
  | .disallow _ _, _ => ∅

end FwCall

/-- The calls, one at a time. -/
def fwCalls (calls : List FwCall) : Raising CacheError Caches Unit := calls.forM FwCall.run

/-! ## One element -/

namespace Caches

variable {c c' : Caches} {access : Access} {mac vlan : String}

/-- The changes of the nft sets, without the other lines. -/
def changes (c : Caches) : List (Change (Access × String × String)) :=
  c.emitted.filterMap NftLine.change?

/-- No entry is empty, and the lines sent make the nft sets, empty at first, what the
dictionaries say, without an idle change. -/
structure Sound (c : Caches) : Prop where
  nonempty : ∀ access mac, (c.entries access).get mac ≠ some ∅
  replayed : ∃ s, replay ∅ c.changes = some s ∧
    ∀ access mac vlan, (access, mac, vlan) ∈ s ↔ vlan ∈ c.vlans access mac

theorem sound_empty : Sound empty :=
  ⟨fun _ _ => by simp [empty], ∅, rfl, by simp [empty, vlans]⟩

/-- The entry of `mac` becomes that of `wanted`, and every other entry stays. -/
structure Puts (access : Access) (mac : String) (wanted : Finset String) (c c' : Caches) :
    Prop where
  here : (c'.entries access).get mac = if wanted = ∅ then none else some wanted
  elsewhere : ∀ access' mac', access' ≠ access ∨ mac' ≠ mac →
    (c'.entries access').get mac' = (c.entries access').get mac'

theorem Puts.vlans_here {wanted : Finset String} (h : Puts access mac wanted c c') :
    c'.vlans access mac = wanted := by
  rw [vlans, h.here]
  split
  · simp [*]
  · rfl

theorem Puts.vlans_elsewhere {wanted : Finset String} (h : Puts access mac wanted c c')
    {access' : Access} {mac' : String} (other : access' ≠ access ∨ mac' ≠ mac) :
    c'.vlans access' mac' = c.vlans access' mac' := by
  rw [vlans, h.elsewhere access' mac' other, vlans]

theorem Puts.trans {wanted wanted' : Finset String} {c'' : Caches}
    (h : Puts access mac wanted c c') (h' : Puts access mac wanted' c' c'') :
    Puts access mac wanted' c c'' :=
  ⟨h'.here, fun access' mac' other =>
    (h'.elsewhere access' mac' other).trans (h.elsewhere access' mac' other)⟩

theorem Puts.nonempty {wanted : Finset String} (h : Puts access mac wanted c c')
    (sound : Sound c) (access' : Access) (mac' : String) :
    (c'.entries access').get mac' ≠ some ∅ := by
  by_cases other : access' ≠ access ∨ mac' ≠ mac
  · rw [h.elsewhere access' mac' other]
    exact sound.nonempty access' mac'
  · obtain ⟨rfl, rfl⟩ : access' = access ∧ mac' = mac := by tauto
    rw [h.here]
    split
    · simp
    · simpa using ‹_›

/-- A deletion that goes with a change of the dictionary. -/
theorem Sound.delete (sound : Sound c) (hv : vlan ∈ c.vlans access mac)
    (puts : Puts access mac ((c.vlans access mac).erase vlan) c c')
    (emits : c'.changes = c.changes ++ [.delete (access, mac, vlan)]) : Sound c' := by
  obtain ⟨s, hs, mem⟩ := sound.replayed
  refine ⟨puts.nonempty sound, s.erase (access, mac, vlan), ?_, fun access' mac' vlan' => ?_⟩
  · rw [emits]
    exact replay_delete hs ((mem _ _ _).mpr hv)
  · rw [Finset.mem_erase, mem]
    by_cases other : access' ≠ access ∨ mac' ≠ mac
    · rw [puts.vlans_elsewhere other]
      grind
    · obtain ⟨rfl, rfl⟩ : access' = access ∧ mac' = mac := by tauto
      rw [puts.vlans_here, Finset.mem_erase]
      simp

theorem Sound.add (sound : Sound c) (hv : vlan ∉ c.vlans access mac)
    (puts : Puts access mac (insert vlan (c.vlans access mac)) c c')
    (emits : c'.changes = c.changes ++ [.add (access, mac, vlan)]) : Sound c' := by
  obtain ⟨s, hs, mem⟩ := sound.replayed
  refine ⟨puts.nonempty sound, insert (access, mac, vlan) s, ?_, fun access' mac' vlan' => ?_⟩
  · rw [emits]
    exact replay_add hs (mt (mem _ _ _).mp hv)
  · rw [Finset.mem_insert, mem]
    by_cases other : access' ≠ access ∨ mac' ≠ mac
    · rw [puts.vlans_elsewhere other]
      grind
    · obtain ⟨rfl, rfl⟩ : access' = access ∧ mac' = mac := by tauto
      rw [puts.vlans_here, Finset.mem_insert]
      simp

theorem puts_self (sound : Sound c) (access : Access) (mac : String) :
    Puts access mac (c.vlans access mac) c c := by
  refine ⟨?_, fun _ _ _ => rfl⟩
  cases h : (c.entries access).get mac with
  | none => simp [vlans, h]
  | some vs =>
    have some_ne : vs ≠ ∅ := fun he => sound.nonempty access mac (he ▸ h)
    simp [vlans, h, some_ne]

theorem puts_erase (access : Access) (mac : String) (c : Caches) :
    Puts access mac ∅ c (c.setEntries access ((c.entries access).erase mac)) := by
  refine ⟨by simp [setEntries, Dict.get_erase], fun access' mac' other => ?_⟩
  by_cases ha : access' = access
  · subst ha
    have hm : mac' ≠ mac := by tauto
    simp [setEntries, Dict.get_erase, hm]
  · simp [setEntries, ha]

theorem puts_set {wanted : Finset String} (some_ne : wanted ≠ ∅) (access : Access) (mac : String)
    (c : Caches) :
    Puts access mac wanted c (c.setEntries access ((c.entries access).set mac wanted)) := by
  refine ⟨by simp [setEntries, Dict.get_set, some_ne], fun access' mac' other => ?_⟩
  by_cases ha : access' = access
  · subst ha
    have hm : mac' ≠ mac := by tauto
    simp [setEntries, Dict.get_set, hm]
  · simp [setEntries, ha]

theorem exec_fwCacheDel (hv : vlan ∈ c.vlans access mac) :
    ∃ c', exec (fwCacheDel access mac vlan) c = (.ok (), c') ∧
      Puts access mac ((c.vlans access mac).erase vlan) c c' ∧ c'.emitted = c.emitted := by
  cases h : (c.entries access).get mac with
  | none => simp [vlans, h] at hv
  | some vs =>
    have hvs : c.vlans access mac = vs := by simp [vlans, h]
    rw [hvs] at hv ⊢
    have some_ne : vs ≠ ∅ := Finset.ne_empty_of_mem hv
    simp only [fwCacheDel, exec_get_bind, h, some_ne, hv, if_true, if_false]
    by_cases last : vs.erase vlan = ∅
    · rw [if_pos last, last]
      exact ⟨_, rfl, puts_erase access mac c, rfl⟩
    · rw [if_neg last]
      exact ⟨_, rfl, puts_set last access mac c, rfl⟩

theorem exec_fwCacheAdd (access : Access) (mac vlan : String) (c : Caches) :
    ∃ c', exec (fwCacheAdd access mac vlan) c = (.ok (), c') ∧
      Puts access mac (insert vlan (c.vlans access mac)) c c' ∧ c'.emitted = c.emitted := by
  have first : Puts access mac {vlan} c
      (c.setEntries access ((c.entries access).set mac {vlan})) :=
    puts_set (Finset.singleton_ne_empty vlan) access mac c
  cases h : (c.entries access).get mac with
  | none =>
    simp only [fwCacheAdd, exec_get_bind, h, vlans, Option.getD_none, insert_empty_eq]
    exact ⟨_, rfl, first, rfl⟩
  | some vs =>
    simp only [fwCacheAdd, exec_get_bind, h, vlans, Option.getD_some]
    by_cases none_yet : vs = ∅
    · rw [if_pos none_yet, none_yet, insert_empty_eq]
      exact ⟨_, rfl, first, rfl⟩
    · rw [if_neg none_yet]
      exact ⟨_, rfl, puts_set (Finset.insert_ne_empty vlan vs) access mac c, rfl⟩

/-! ## The loops -/

theorem exec_close (sound : Sound c) (hv : vlan ∈ c.vlans access mac) :
    ∃ c', exec (do fwCacheDel access mac vlan; nft (.element (.delete (access, mac, vlan)))) c =
        (.ok (), c') ∧
      Sound c' ∧ Puts access mac ((c.vlans access mac).erase vlan) c c' := by
  obtain ⟨u, ran, puts, emitted⟩ := exec_fwCacheDel hv
  have puts' : Puts access mac ((c.vlans access mac).erase vlan) c
      { u with emitted := u.emitted ++ [.element (.delete (access, mac, vlan))] } :=
    ⟨puts.here, puts.elsewhere⟩
  refine ⟨_, exec_bind_ok ran, sound.delete hv puts' ?_, puts'⟩
  simp [changes, emitted, NftLine.change?]

theorem exec_open (sound : Sound c) (hv : vlan ∉ c.vlans access mac) :
    ∃ c', exec (do fwCacheAdd access mac vlan; nft (.element (.add (access, mac, vlan)))) c =
        (.ok (), c') ∧
      Sound c' ∧ Puts access mac (insert vlan (c.vlans access mac)) c c' := by
  obtain ⟨u, ran, puts, emitted⟩ := exec_fwCacheAdd access mac vlan c
  have puts' : Puts access mac (insert vlan (c.vlans access mac)) c
      { u with emitted := u.emitted ++ [.element (.add (access, mac, vlan))] } :=
    ⟨puts.here, puts.elsewhere⟩
  refine ⟨_, exec_bind_ok ran, sound.add hv puts' ?_, puts'⟩
  simp [changes, emitted, NftLine.change?]

/-- A loop each step of which changes the VLANs of `mac` by `change`, if it finds what it
`needs`, which the steps for the other VLANs do not change. -/
theorem exec_vlans {step : String → Raising CacheError Caches Unit}
    (change : Finset String → String → Finset String) (needs : Finset String → String → Prop)
    (stable : ∀ s v v', v' ≠ v → needs s v' → needs (change s v) v')
    (one : ∀ c vlan, Sound c → needs (c.vlans access mac) vlan →
      ∃ c', exec (step vlan) c = (.ok (), c') ∧ Sound c' ∧
        Puts access mac (change (c.vlans access mac) vlan) c c')
    {l : List String} (nodup : l.Nodup) (sound : Sound c)
    (h : ∀ v ∈ l, needs (c.vlans access mac) v) :
    ∃ c', exec (l.forM step) c = (.ok (), c') ∧ Sound c' ∧
      Puts access mac (l.foldl change (c.vlans access mac)) c c' := by
  induction l generalizing c with
  | nil => exact ⟨c, rfl, sound, puts_self sound access mac⟩
  | cons v l ih =>
    obtain ⟨fresh, nodup⟩ := List.nodup_cons.mp nodup
    obtain ⟨u, ran, sound', puts⟩ := one c v sound (h v List.mem_cons_self)
    have later : ∀ v' ∈ l, needs (u.vlans access mac) v' := by
      intro v' hv'
      rw [puts.vlans_here]
      exact stable _ v v' (fun he => fresh (he ▸ hv')) (h v' (List.mem_cons_of_mem _ hv'))
    obtain ⟨c', ran', sound'', puts'⟩ := ih nodup sound' later
    refine ⟨c', (exec_bind_ok ran).trans ran', sound'', ?_⟩
    rw [puts.vlans_here] at puts'
    exact puts.trans puts'

theorem mem_foldl_erase (l : List String) (s : Finset String) (v : String) :
    v ∈ l.foldl Finset.erase s ↔ v ∈ s ∧ v ∉ l := by
  induction l generalizing s with
  | nil => simp
  | cons w l ih =>
    rw [List.foldl_cons, ih, Finset.mem_erase]
    grind

theorem mem_foldl_insert (l : List String) (s : Finset String) (v : String) :
    v ∈ l.foldl (fun s v => insert v s) s ↔ v ∈ s ∨ v ∈ l := by
  induction l generalizing s with
  | nil => simp
  | cons w l ih =>
    rw [List.foldl_cons, ih, Finset.mem_insert]
    grind

/-- Both loops leave what is wanted, whatever their orders. -/
theorem exec_fwProgram (orders : Orders) (access : Access) (mac : String) (wanted : List String)
    (sound : Sound c) :
    ∃ c', exec (fwProgram orders access (fwCacheDel access) (fwCacheAdd access) mac wanted) c =
        (.ok (), c') ∧
      Sound c' ∧ Puts access mac wanted.toFinset c c' := by
  let closing := orders.closing access (c.vlans access mac \ wanted.toFinset)
  obtain ⟨u, ran, sound', puts⟩ := exec_vlans Finset.erase (fun s v => v ∈ s)
    (fun s v v' hne hv' => Finset.mem_erase.mpr ⟨hne, hv'⟩)
    (fun c vlan sound hv => exec_close sound hv) closing.nodup sound
    fun v hv => (Finset.mem_sdiff.mp ((closing.mem v).mp hv)).1
  let opening := orders.opening access (wanted.toFinset \ u.vlans access mac)
  obtain ⟨c', ran', sound'', puts'⟩ := exec_vlans (fun s v => insert v s) (fun s v => v ∉ s)
    (fun s v v' hne hv' => by simp [hne, hv'])
    (fun c vlan sound hv => exec_open sound hv) opening.nodup sound'
    fun v hv => (Finset.mem_sdiff.mp ((opening.mem v).mp hv)).2
  refine ⟨c', ?_, sound'', ?_⟩
  · simp only [fwProgram, exec_get_bind]
    rw [exec_bind_ok ran, exec_get_bind]
    exact ran'
  · have all : opening.list.foldl (fun s v => insert v s) (u.vlans access mac) =
        wanted.toFinset := by
      ext v
      rw [mem_foldl_insert, opening.mem, Finset.mem_sdiff, puts.vlans_here, mem_foldl_erase,
        closing.mem, Finset.mem_sdiff]
      tauto
    exact all ▸ puts.trans puts'

/-! ## The calls -/

/-- A call as a call of `fw_allow_mac`: orders and lists of VLANs. -/
theorem run_eq (call : FwCall) : ∃ orders allowOn bridgeTo,
    call.run = Caches.fwAllowMac orders call.mac allowOn bridgeTo ∧
    call.wanted .allowOn = (allowOn.getD []).toFinset ∧
    call.wanted .bridgeTo = (bridgeTo.getD []).toFinset := by
  cases call with
  | allow orders mac allowOn bridgeTo => exact ⟨orders, allowOn, bridgeTo, rfl, rfl, rfl⟩
  | disallow orders mac => exact ⟨orders, none, none, rfl, rfl, rfl⟩

/-- What a call does: both entries of its device become what is wanted, and those of the
other devices stay. -/
structure Follows (call : FwCall) (c c' : Caches) : Prop where
  here : ∀ access, c'.vlans access call.mac = call.wanted access
  elsewhere : ∀ access mac, mac ≠ call.mac →
    (c'.entries access).get mac = (c.entries access).get mac

theorem exec_run (call : FwCall) (sound : Sound c) :
    ∃ c', exec call.run c = (.ok (), c') ∧ Sound c' ∧ Follows call c c' := by
  obtain ⟨orders, allowOn, bridgeTo, run, hon, hto⟩ := run_eq call
  obtain ⟨u, ran, sound', puts⟩ :=
    exec_fwProgram orders .allowOn call.mac (allowOn.getD []) sound
  obtain ⟨v, ran', sound'', puts'⟩ :=
    exec_fwProgram orders .bridgeTo call.mac (bridgeTo.getD []) sound'
  refine ⟨{ v with emitted := v.emitted ++ [.quit] }, ?_, ⟨sound''.nonempty, ?_⟩, ?_, ?_⟩
  · rw [run, Caches.fwAllowMac]
    exact (exec_bind_ok ran).trans ((exec_bind_ok ran').trans rfl)
  · obtain ⟨s, hs, mem⟩ := sound''.replayed
    refine ⟨s, ?_, mem⟩
    rw [← hs, changes, List.filterMap_append]
    exact congrArg (replay ∅) (List.append_nil _)
  · rintro (_ | _)
    · rw [hon, ← puts.vlans_here]
      exact puts'.vlans_elsewhere (.inl (by decide))
    · rw [hto]
      exact puts'.vlans_here
  · intro access mac hmac
    exact (puts'.elsewhere access mac (.inr hmac)).trans (puts.elsewhere access mac (.inr hmac))

/-- From empty caches, no call raises; after every call the caches hold what the last call
of each device wants, without empty entries, and the nft sets are what the caches say. -/
theorem fwCalls_sound (calls : List FwCall) :
    ∃ c, exec (fwCalls calls) empty = (.ok (), c) ∧ Sound c ∧
      ∀ call, ∃ c', exec call.run c = (.ok (), c') ∧ Sound c' ∧ Follows call c c' := by
  have runs : ∀ (calls : List FwCall) (c : Caches), Sound c →
      ∃ c', exec (fwCalls calls) c = (.ok (), c') ∧ Sound c' := by
    intro calls
    induction calls with
    | nil => exact fun c sound => ⟨c, rfl, sound⟩
    | cons call calls ih =>
      intro c sound
      obtain ⟨u, ran, sound', -⟩ := exec_run call sound
      obtain ⟨c', ran', sound''⟩ := ih u sound'
      exact ⟨c', (exec_bind_ok ran).trans ran', sound''⟩
  obtain ⟨c, ran, sound⟩ := runs calls empty sound_empty
  exact ⟨c, ran, sound, fun call => exec_run call sound⟩

/-! ## The firewall without its loops -/

/-- The dictionaries of the firewall are the caches, and its nft sets what they say. -/
structure Represents (fw : Firewall) (c : Caches) : Prop where
  allowed : ∀ mac, fw.allowedVlans mac = c.vlans .allowOn mac
  bridged : ∀ mac, fw.bridgedVlans mac = c.vlans .bridgeTo mac
  exact : ∀ mac, (fw.device mac).Exact

/-- The nft sets are those that the lines sent have made. -/
theorem Represents.mem {fw : Firewall} (h : Represents fw c) (sound : Sound c) :
    ∃ s, replay ∅ c.changes = some s ∧ ∀ mac vlan,
      ((mac, vlan) ∈ fw.macOnVlan ↔ (.allowOn, mac, vlan) ∈ s) ∧
      ((mac, vlan) ∈ fw.macToVlan ↔ (.bridgeTo, mac, vlan) ∈ s) := by
  obtain ⟨s, hs, mem⟩ := sound.replayed
  refine ⟨s, hs, fun mac vlan => ⟨?_, ?_⟩⟩
  · rw [mem, ← h.allowed]
    exact Set.ext_iff.mp (h.exact mac).1 vlan
  · rw [mem, ← h.bridged]
    exact Set.ext_iff.mp (h.exact mac).2 vlan

theorem Follows.vlans {call : FwCall} (follows : Follows call c c') (access : Access)
    (mac : String) :
    c'.vlans access mac = if mac = call.mac then call.wanted access else c.vlans access mac := by
  split
  · subst mac
    exact follows.here access
  · rw [Caches.vlans, follows.elsewhere access mac ‹_›, Caches.vlans]

/-- A call that goes element by element does what `Firewall.fwAllowMac` does at once. -/
theorem Represents.run {fw : Firewall} (h : Represents fw c) {call : FwCall}
    (follows : Follows call c c') :
    Represents (fw.fwAllowMac call.mac (call.wanted .allowOn) (call.wanted .bridgeTo)) c' where
  allowed mac := by
    rw [follows.vlans, ← h.allowed]
    simp [Firewall.fwAllowMac, Function.update_apply]
  bridged mac := by
    rw [follows.vlans, ← h.bridged]
    simp [Firewall.fwAllowMac, Function.update_apply]
  exact mac := by
    rw [device_fwAllowMac]
    split
    · exact (h.exact call.mac).program _ _
    · exact h.exact mac

/-- After any calls, the caches and the nft sets are those of the firewall that is programmed
at once, call after call. -/
theorem represents_fwCalls {fw : Firewall} (h : Represents fw c) (sound : Sound c)
    {calls : List FwCall} (ran : exec (fwCalls calls) c = (.ok (), c')) :
    Represents (calls.foldl (fun fw call =>
      fw.fwAllowMac call.mac (call.wanted .allowOn) (call.wanted .bridgeTo)) fw) c' := by
  induction calls generalizing fw c with
  | nil =>
    cases ran
    exact h
  | cons call calls ih =>
    obtain ⟨u, first, sound', follows⟩ := exec_run call sound
    exact ih (h.run follows) sound' ((exec_bind_ok first).symm.trans ran)

end Caches

end ElanAgent.Nac
