import ElanAgent.Library.Dict
import ElanAgent.Library.Raising
import ElanAgent.Session.Consumer
import Mathlib.Order.Preorder.Finite
import Mathlib.Data.Set.Finite.List

/-!
# Notifying the current sessions again

`notify_current_sessions` reads the fields of `SESSION_IDS` back into tuples and tells
every leaf session again. Nothing is read from the indexes: what a parent needs is that
its own field is there, and a field that is missing raises.

The sets of the source are lists here. Their order is that of the scan, which is any, so
the sets are gone through in any order.
-/

namespace ElanAgent.Session

open Atomic Redis Hierarchy Raising

/-! ## Fields -/

/-- A tuple of MAC, VLAN and IP. -/
abbrev Tuple := Value × Value × Value

/-- `$`: the end, or a newline at the end. -/
def atEnd (text : List Char) : Bool := text = [] || text = ['\n']

/-- `.+?` and the `rest` of the pattern: the shortest text after which `rest` matches. -/
def lazily {β : Type} (rest : List Char → Option β) : List Char → Option (List Char × β)
  | [] => none
  | c :: text =>
    if c = '\n' then none
    else match rest text with
      | some b => some ([c], b)
      | none => (lazily rest text).map fun (taken, b) => (c :: taken, b)

/-- What comes after a literal part of the pattern. -/
def literal (part : String) (text : List Char) : Option (List Char) :=
  if part.toList.isPrefixOf text then some (text.drop part.length) else none

/-- `$`, or else another part. -/
def endOr {β : Type} (part : List Char → Option β) (text : List Char) : Option (Option β) :=
  if atEnd text then some none else (part text).map some

/-- `,ip=(?P<ip>.+?)$` -/
def ipPart (text : List Char) : Option String := do
  let text ← literal ",ip=" text
  let (ip, _) ← lazily (fun rest => if atEnd rest then some () else none) text
  some (String.ofList ip)

/-- `,vlan=(?P<vlan>.+?)($|,ip=(?P<ip>.+?)$)` -/
def vlanPart (text : List Char) : Option (String × Option String) := do
  let text ← literal ",vlan=" text
  let (vlan, ip) ← lazily (endOr ipPart) text
  some (String.ofList vlan, ip)

/-- The tuple of MAC, VLAN and IP of a field, or nothing if `re.match` returns `None`. -/
def fieldToMacVlanIp (field : String) : Option Tuple := do
  let text ← literal "mac=" field.toList
  let (mac, rest) ← lazily (endOr vlanPart) text
  match rest with
  | none => some (String.ofList mac, .none, .none)
  | some (vlan, none) => some (String.ofList mac, vlan, .none)
  | some (vlan, some ip) => some (String.ofList mac, vlan, ip)

/-! ## The notifications -/

inductive LookupError where
  | attributeError
  | keyError (key : Tuple)
  deriving DecidableEq, Repr

/-- File the id of a field under its tuple. -/
def readField (ids : Dict Tuple ℕ) (e : String × ℕ) : Except LookupError (Dict Tuple ℕ) :=
  match fieldToMacVlanIp e.1 with
  | some key => .ok (ids.set key e.2)
  | none => .error .attributeError

/-- The ids of the fields that `hscan_iter` yields. -/
def getCurrentSessionIds (scan : List (String × ℕ)) : Except LookupError (Dict Tuple ℕ) :=
  scan.foldlM readField Dict.empty

/-- A call on the store that nothing disturbs. -/
def alone {α : Type} (p : Prog synapse α) : Raising LookupError World α :=
  ofRun fun w => (.ok (p.run handler w).1, (p.run handler w).2)

/-- `current_sessions[key]` -/
def sessionId (ids : Dict Tuple ℕ) (key : Tuple) : Raising LookupError World ℕ :=
  match ids.get key with
  | some id => pure id
  | none => throw (.keyError key)

/-- What the loops still have to notify, and the notifications so far. -/
structure Remaining where
  vlanSessions : List (Value × Value)
  macSessions : List Value
  count : ℕ

def notifyIp (now : ℚ) (ids : Dict Tuple ℕ) (left : Remaining) :
    Tuple → Raising LookupError World Remaining
  | (mac, vlan, ip) => do
    let macId ← sessionId ids (mac, .none, .none)
    let vlanId ← sessionId ids (mac, vlan, .none)
    let ipId ← sessionId ids (mac, vlan, ip)
    let port ← alone (macPort mac)
    alone (notifyNewIpSession now mac macId vlan vlanId ip ipId port none)
    pure ⟨left.vlanSessions.filter (· ≠ (mac, vlan)), left.macSessions.filter (· ≠ mac),
      left.count + 1⟩

def notifyVlan (now : ℚ) (ids : Dict Tuple ℕ) (left : Remaining) :
    Value × Value → Raising LookupError World Remaining
  | (mac, vlan) => do
    let macId ← sessionId ids (mac, .none, .none)
    let vlanId ← sessionId ids (mac, vlan, .none)
    let port ← alone (macPort mac)
    alone (notifyNewVlanSession now mac macId vlan vlanId port none)
    pure { left with macSessions := left.macSessions.filter (· ≠ mac), count := left.count + 1 }

def notifyMac (now : ℚ) (ids : Dict Tuple ℕ) (left : Remaining) (mac : Value) :
    Raising LookupError World Remaining := do
  let macId ← sessionId ids (mac, .none, .none)
  let port ← alone (macPort mac)
  alone (notifyNewMacSession now mac macId port none)
  pure { left with count := left.count + 1 }

def ipSessions (ids : Dict Tuple ℕ) : List Tuple := ids.keys.filter fun (_, _, ip) => ip ≠ .none

def vlanSessions (ids : Dict Tuple ℕ) : List (Value × Value) :=
  (ids.keys.filter fun (_, vlan, ip) => ip = .none ∧ vlan ≠ .none).map
    fun (mac, vlan, _) => (mac, vlan)

def macSessions (ids : Dict Tuple ℕ) : List Value :=
  (ids.keys.filter fun (_, vlan, ip) => ip = .none ∧ vlan = .none).map fun (mac, _) => mac

/-- Resend the notifications of all current sessions, and return their number. -/
def notifyCurrentSessions (now : ℚ) (scan : List (String × ℕ)) :
    Raising LookupError World ℕ := do
  let ids ← ofRun fun w => (getCurrentSessionIds scan, w)
  let left ← (ipSessions ids).foldlM (notifyIp now ids) ⟨vlanSessions ids, macSessions ids, 0⟩
  let left ← left.vlanSessions.foldlM (notifyVlan now ids) left
  let left ← left.macSessions.foldlM (notifyMac now ids) left
  pure left.count

variable {N : Set Obj} {P : Set Port} {w : World}

/-! ## The dictionary of ids -/

/-- The tuple that `field_to_mac_vlan_ip` should read back from the field of an object. -/
def Obj.tuple : Obj → Tuple
  | .mac m => (m, .none, .none)
  | .vlan m v => (m, v, .none)
  | .ip m v i => (m, v, i)

/-- The names of `N` survive `session_ids_field` and `field_to_mac_vlan_ip`. -/
def Survive (N : Set Obj) : Prop := ∀ o ∈ N, fieldToMacVlanIp o.field = some o.tuple

/-! ### Fields that are read back -/

/-- The field of a tuple. -/
def fieldOf (t : Tuple) : String := sessionIdsField t.1 t.2.1 t.2.2

/-- The text is not empty, and on one line. -/
def OneLine (s : String) : Prop := s ≠ "" ∧ '\n' ∉ s.toList

/-- `part in s` -/
def Within (part s : String) : Prop := part.toList <:+: s.toList

/-- What the tuples of the three kinds of session may be made of. -/
inductive Storable : Tuple → Prop
  | mac {m : String} (hm : OneLine m) (free : ¬Within ",vlan=" m) : Storable (m, .none, .none)
  | vlan {m v : String} (hm : OneLine m) (hv : OneLine v) (free : ¬Within ",vlan=" m)
      (free' : ¬Within ",ip=" v) : Storable (m, v, .none)
  | ip {m v i : String} (hm : OneLine m) (hv : OneLine v) (hi : OneLine i)
      (free : ¬Within ",vlan=" m) (free' : ¬Within ",ip=" v) : Storable (m, v, i)

/-- A part that begins with its only comma does not begin in a text and end in what comes
after it, if a comma comes first there. -/
theorem prefix_of_prefix_append {part more post tail : List Char} (hpart : part = ',' :: more)
    (comma : ',' ∉ more) (start : ∀ c ∈ tail.head?, c = ',') (nonempty : post ≠ [])
    (h : part <+: post ++ tail) : part <+: post := by
  rcases List.prefix_or_prefix_of_prefix h (List.prefix_append post tail) with inside | beyond
  · exact inside
  · obtain ⟨rest, rfl⟩ := beyond
    rw [List.prefix_append_right_inj] at h
    cases rest with
    | nil => simp
    | cons c rest =>
      obtain ⟨left, rfl⟩ := h
      obtain rfl : c = ',' := start c rfl
      cases post with
      | nil => exact absurd rfl nonempty
      | cons d post =>
        obtain ⟨-, rfl⟩ := List.cons.inj hpart
        exact absurd (by simp) comma

theorem literal_append (part : String) (text : List Char) :
    literal part (part.toList ++ text) = some text := by
  simp [literal, ← String.length_toList]

theorem literal_eq_none {part : String} {text : List Char} (h : ¬part.toList <+: text) :
    literal part text = none := by
  rw [literal, if_neg]
  rwa [List.isPrefixOf_iff_prefix]

/-- The part that comes after a text is not found within it. -/
theorem literal_early {part s : String} {more : List Char} (hpart : part.toList = ',' :: more)
    (comma : ',' ∉ more) (free : ¬Within part s) {pre post tail : List Char}
    (split : s.toList = pre ++ post) (nonempty : post ≠ []) (start : ∀ c ∈ tail.head?, c = ',') :
    literal part (post ++ tail) = none := by
  refine literal_eq_none fun begins => free ?_
  have inside := prefix_of_prefix_append hpart comma start nonempty begins
  rw [Within, split]
  exact inside.isInfix.trans (List.suffix_append pre post).isInfix

/-- The shortest text is all of it, if the rest of the expression does not match before. -/
theorem lazily_first {β : Type} {rest : List Char → Option β} {text tail : List Char} {b : β}
    (nonempty : text ≠ []) (newline : '\n' ∉ text)
    (early : ∀ pre post, text = pre ++ post → post ≠ [] → rest (post ++ tail) = none)
    (hit : rest tail = some b) : lazily rest (text ++ tail) = some (text, b) := by
  induction text with
  | nil => exact absurd rfl nonempty
  | cons c text ih =>
    simp only [List.mem_cons, not_or] at newline
    rw [List.cons_append, lazily, if_neg (Ne.symm newline.1)]
    cases text with
    | nil => simp [hit]
    | cons d text =>
      have found := ih (by simp) newline.2 fun pre post split some =>
        early (c :: pre) post (by rw [split, List.cons_append]) some
      rw [early [c] (d :: text) rfl (by simp), found]
      rfl

theorem atEnd_append {post tail : List Char} (nonempty : post ≠ []) (newline : '\n' ∉ post) :
    atEnd (post ++ tail) = false := by
  cases post with
  | nil => exact absurd rfl nonempty
  | cons c post =>
    have other : c ≠ '\n' := fun same => newline (by simp [same])
    simp [atEnd, other]

theorem endOr_early {β : Type} {part : List Char → Option β} {s : String} (hs : OneLine s)
    {pre post tail : List Char} (split : s.toList = pre ++ post) (nonempty : post ≠ [])
    (early : part (post ++ tail) = none) : endOr part (post ++ tail) = none := by
  have newline : '\n' ∉ post := fun h => hs.2 (split ▸ List.mem_append_right pre h)
  rw [endOr, atEnd_append nonempty newline, early]
  rfl

theorem endOr_hit {β : Type} {part : List Char → Option β} {text : List Char} {b : β}
    (hit : part text = some b) (long : 1 < text.length) :
    endOr part text = some (some b) := by
  have more : atEnd text = false := by
    rcases text with _ | ⟨c, _ | ⟨d, text⟩⟩ <;> simp_all [atEnd]
  simp [endOr, more, hit]

theorem ipPart_field {i : String} (hi : OneLine i) :
    ipPart (",ip=".toList ++ i.toList) = some i := by
  have found : lazily (fun rest => if atEnd rest then some () else none) (i.toList ++ []) =
      some (i.toList, ()) := by
    refine lazily_first (String.toList_eq_nil_iff.not.mpr hi.1) hi.2 ?_ (by simp [atEnd])
    intro pre post split nonempty
    rw [atEnd_append nonempty fun h => hi.2 (split ▸ List.mem_append_right pre h)]
    rfl
  rw [List.append_nil] at found
  rw [ipPart, literal_append]
  simp [found]

theorem vlanPart_field {v : String} (hv : OneLine v) (free : ¬Within ",ip=" v) {tail : List Char}
    (start : ∀ c ∈ tail.head?, c = ',') {ip : Option String} (hit : endOr ipPart tail = some ip) :
    vlanPart (",vlan=".toList ++ (v.toList ++ tail)) = some (v, ip) := by
  have found : lazily (endOr ipPart) (v.toList ++ tail) = some (v.toList, ip) := by
    refine lazily_first (String.toList_eq_nil_iff.not.mpr hv.1) hv.2 ?_ hit
    intro pre post split nonempty
    refine endOr_early hv split nonempty ?_
    rw [ipPart, literal_early rfl (by decide) free split nonempty start]
    rfl
  rw [vlanPart, literal_append]
  simp [found]

theorem fieldToMacVlanIp_field {field m : String} {tail : List Char}
    {rest : Option (String × Option String)} (hm : OneLine m) (free : ¬Within ",vlan=" m)
    (hfield : field.toList = "mac=".toList ++ (m.toList ++ tail))
    (start : ∀ c ∈ tail.head?, c = ',') (hit : endOr vlanPart tail = some rest) :
    fieldToMacVlanIp field = some
      (.str m, rest.elim .none fun r => .str r.1, (rest.bind (·.2)).elim .none .str) := by
  have found : lazily (endOr vlanPart) (m.toList ++ tail) = some (m.toList, rest) := by
    refine lazily_first (String.toList_eq_nil_iff.not.mpr hm.1) hm.2 ?_ hit
    intro pre post split nonempty
    refine endOr_early hm split nonempty ?_
    rw [vlanPart, literal_early rfl (by decide) free split nonempty start]
    rfl
  rw [fieldToMacVlanIp, hfield, literal_append]
  rcases rest with _ | ⟨vlan, _ | ip⟩ <;> simp [found]

theorem fieldToMacVlanIp_fieldOf {t : Tuple} (h : Storable t) :
    fieldToMacVlanIp (fieldOf t) = some t := by
  cases h with
  | @mac m hm free =>
    have hfield : (fieldOf (m, .none, .none)).toList = "mac=".toList ++ (m.toList ++ []) := by
      simp [fieldOf, sessionIdsField, Value.format]
    have hit : endOr vlanPart [] = some none := by simp [endOr, atEnd]
    exact fieldToMacVlanIp_field hm free hfield (by simp) hit
  | @vlan m v hm hv free free' =>
    have hfield : (fieldOf (m, v, .none)).toList =
        "mac=".toList ++ (m.toList ++ (",vlan=".toList ++ (v.toList ++ []))) := by
      simp [fieldOf, sessionIdsField, Value.format]
    have hit : endOr ipPart [] = some none := by simp [endOr, atEnd]
    have part := vlanPart_field hv free' (by simp) hit
    exact fieldToMacVlanIp_field hm free hfield (by simp) (endOr_hit part (by simp))
  | @ip m v i hm hv hi free free' =>
    have hfield : (fieldOf (m, v, i)).toList = "mac=".toList ++ (m.toList ++
        (",vlan=".toList ++ (v.toList ++ (",ip=".toList ++ i.toList)))) := by
      simp [fieldOf, sessionIdsField, Value.format]
    have part := vlanPart_field hv free' (by simp) (endOr_hit (ipPart_field hi) (by simp))
    exact fieldToMacVlanIp_field hm free hfield (by simp) (endOr_hit part (by simp))

theorem field_eq (o : Obj) : o.field = sessionIdsField o.tuple.1 o.tuple.2.1 o.tuple.2.2 := by
  cases o <;> rfl

/-! ### Names without a comma survive -/

/-- The text is not empty and has neither a comma nor a newline. -/
def Plain : Value → Prop
  | .str s => s ≠ "" ∧ ',' ∉ s.toList ∧ '\n' ∉ s.toList
  | _ => False

def Obj.Plain : Obj → Prop
  | .mac m => Session.Plain m
  | .vlan m v => Session.Plain m ∧ Session.Plain v
  | .ip m v i => Session.Plain m ∧ Session.Plain v ∧ Session.Plain i

/-- Names without a comma survive. -/
theorem survive_of_plain (h : ∀ o ∈ N, o.Plain) : Survive N := by
  have text : ∀ v, Session.Plain v → ∃ s : String, v = s ∧ OneLine s ∧
      ∀ part more, part.toList = ',' :: more → ¬Within part s := by
    rintro (_ | _ | s) hv
    · exact hv.elim
    · exact hv.elim
    · obtain ⟨nonempty, comma, newline⟩ := hv
      refine ⟨s, rfl, ⟨nonempty, newline⟩, fun part more hpart within => comma ?_⟩
      exact within.subset (by simp [hpart])
  intro o ho
  have plain := h o ho
  rw [field_eq]
  refine fieldToMacVlanIp_fieldOf (t := o.tuple) ?_
  cases o with
  | mac m =>
    obtain ⟨m, rfl, hm, free⟩ := text m plain
    exact .mac hm (free _ _ rfl)
  | vlan m v =>
    obtain ⟨m, rfl, hm, free⟩ := text m plain.1
    obtain ⟨v, rfl, hv, free'⟩ := text v plain.2
    exact .vlan hm hv (free _ _ rfl) (free' _ _ rfl)
  | ip m v i =>
    obtain ⟨m, rfl, hm, free⟩ := text m plain.1
    obtain ⟨v, rfl, hv, free'⟩ := text v plain.2.1
    obtain ⟨i, rfl, hi, -⟩ := text i plain.2.2
    exact .ip hm hv hi (free _ _ rfl) (free' _ _ rfl)

/-- The scan yields the items of the hash, each at least once. -/
def Scans (scan : List (String × ℕ)) (w : World) : Prop :=
  ∀ f id, (f, id) ∈ scan ↔ w.sessionIds.lookup f = some id

/-- Reading fields of which each has a tuple, whose id is that of `ids`. -/
theorem foldlM_readField (ids : Tuple → Option ℕ) {scan : List (String × ℕ)}
    (known : ∀ e ∈ scan, ∃ key, fieldToMacVlanIp e.1 = some key ∧ ids key = some e.2)
    (d : Dict Tuple ℕ) : ∃ d', scan.foldlM readField d = .ok d' ∧ ∀ key, d'.get key =
      if ∃ e ∈ scan, fieldToMacVlanIp e.1 = some key then ids key else d.get key := by
  induction scan generalizing d with
  | nil => exact ⟨d, rfl, by simp⟩
  | cons e scan ih =>
    obtain ⟨key, hkey, hid⟩ := known e List.mem_cons_self
    obtain ⟨d', hd', get⟩ := ih (fun e he => known e (List.mem_cons_of_mem _ he)) (d.set key e.2)
    refine ⟨d', ?_, fun k => ?_⟩
    · rw [List.foldlM_cons, readField, hkey]
      exact hd'
    · rw [get, Dict.get_set]
      simp only [List.exists_mem_cons_iff, hkey, Option.some.injEq]
      by_cases hk : k = key
      · subst hk
        simp [hid]
      · have hne : key ≠ k := fun h => hk h.symm
        simp only [hne, hk, false_or, if_false]

/-- What the dictionary holds of a store that meets the invariant. -/
theorem getCurrentSessionIds_ok (survive : Survive N) (inv : Invariant N P w)
    {scan : List (String × ℕ)} (scans : Scans scan w) :
    ∃ ids, getCurrentSessionIds scan = .ok ids ∧ (∀ o ∈ N, ids.get o.tuple = w.idOf o) ∧
      ∀ key ∈ ids.keys, ∃ o ∈ support w.seenAt, o.tuple = key := by
  have named : ∀ e ∈ scan, ∃ o ∈ N, fieldToMacVlanIp e.1 = some o.tuple ∧
      w.idOf o = some e.2 := by
    rintro ⟨f, id⟩ he
    have hid := (scans f id).mp he
    obtain ⟨o, ho, rfl⟩ := inv.fieldNamed f id hid
    exact ⟨o, ho, survive o ho, hid⟩
  obtain ⟨ids, hids, get⟩ := foldlM_readField
    (fun key => w.sessionIds.lookup (sessionIdsField key.1 key.2.1 key.2.2))
    (fun e he => by
      obtain ⟨o, -, hkey, hid⟩ := named e he
      exact ⟨o.tuple, hkey, by rw [← field_eq]; exact hid⟩) Dict.empty
  refine ⟨ids, hids, fun o ho => ?_, fun key hkey => ?_⟩
  · rw [get, ← field_eq]
    split
    · rfl
    · rename_i unread
      refine (Option.eq_none_iff_forall_ne_some.mpr fun id hid => unread ?_).symm
      exact ⟨(o.field, id), (scans _ _).mpr hid, survive o ho⟩
  · obtain ⟨id, hid⟩ := Dict.mem_keys.mp hkey
    rw [get] at hid
    split at hid
    · rename_i read
      obtain ⟨e, he, hkey⟩ := read
      obtain ⟨o, ho, hkey', hid'⟩ := named e he
      refine ⟨o, (inv.ids o ho).mpr (by simp [hid']), ?_⟩
      exact Option.some.inj (hkey'.symm.trans hkey)
    · cases hid

/-! ## The loops -/

/-- The message that notifies an open session: no start is given, so it is the current time. -/
def currentMessage (now : ℚ) (w : World) (o : Obj) : Message :=
  { startMessage now w.idOf 0 (w.portOf o.owner) o with start := some (formatDate now none) }

theorem currentMessage_eq (now : ℚ) (w : World) (o : Obj) :
    currentMessage now w o = startMessage now w.idOf 0 (w.portOf o.owner) o := by
  cases o <;> rfl

@[simp] theorem exec_alone {α : Type} (p : Prog synapse α) (w : World) :
    exec (alone p) w = (.ok (p.run handler w).1, (p.run handler w).2) := rfl

theorem exec_sessionId {ids : Dict Tuple ℕ} {key : Tuple} {id : ℕ} (h : ids.get key = some id)
    (w : World) : exec (sessionId ids key) w = (.ok id, w) := by
  rw [sessionId, h, exec_pure]

/-- The dictionary holds the ids of `o` and of what it is under. -/
def Holds (ids : Dict Tuple ℕ) (w : World) (o : Obj) : Prop :=
  ∀ x ≤ o, ∃ id, ids.get x.tuple = some id ∧ w.idOf x = some id

variable {ids : Dict Tuple ℕ}

/-- What is left once sessions are discarded by a notification more, or by several. -/
def Remaining.discard (left : Remaining) (vlans : List (Value × Value)) (macs : List Value)
    (notified : ℕ) : Remaining :=
  ⟨left.vlanSessions.filter (· ∉ vlans), left.macSessions.filter (· ∉ macs),
    left.count + notified⟩

theorem Remaining.discard_discard (left : Remaining) (vlans vlans' : List (Value × Value))
    (macs macs' : List Value) (n n' : ℕ) : (left.discard vlans macs n).discard vlans' macs' n' =
      left.discard (vlans ++ vlans') (macs ++ macs') (n + n') := by
  simp only [discard, List.filter_filter, List.mem_append, not_or, ← Bool.decide_and,
    Nat.add_assoc, and_comm]

theorem exec_notifyIp (now : ℚ) (left : Remaining) (l : List Message) {m v i : Value}
    (h : Holds ids w (.ip m v i)) : exec (notifyIp now ids left (m, v, i)) (w.say l) =
      (.ok (left.discard [(m, v)] [m] 1),
        w.say (l ++ [currentMessage now w (.ip m v i)])) := by
  obtain ⟨macId, hmac, hmac'⟩ := h (.mac m) (by simp)
  obtain ⟨vlanId, hvlan, hvlan'⟩ := h (.vlan m v) (by simp)
  obtain ⟨ipId, hip, hip'⟩ := h (.ip m v i) le_rfl
  simp only [Obj.tuple] at hmac hvlan hip
  unfold notifyIp
  rw [exec_bind_ok (exec_sessionId hmac _), exec_bind_ok (exec_sessionId hvlan _),
    exec_bind_ok (exec_sessionId hip _), exec_bind_ok (exec_alone _ _),
    exec_bind_ok (exec_alone _ _), exec_pure]
  simp [notifyNewIpSession, currentMessage, startMessage, World.say, World.portOf, Obj.owner,
    Remaining.discard, *]

theorem exec_notifyVlan (now : ℚ) (left : Remaining) (l : List Message) {m v : Value}
    (h : Holds ids w (.vlan m v)) : exec (notifyVlan now ids left (m, v)) (w.say l) =
      (.ok (left.discard [] [m] 1), w.say (l ++ [currentMessage now w (.vlan m v)])) := by
  obtain ⟨macId, hmac, hmac'⟩ := h (.mac m) (by simp)
  obtain ⟨vlanId, hvlan, hvlan'⟩ := h (.vlan m v) le_rfl
  simp only [Obj.tuple] at hmac hvlan
  unfold notifyVlan
  rw [exec_bind_ok (exec_sessionId hmac _), exec_bind_ok (exec_sessionId hvlan _),
    exec_bind_ok (exec_alone _ _), exec_bind_ok (exec_alone _ _), exec_pure]
  simp [notifyNewVlanSession, currentMessage, startMessage, World.say, World.portOf, Obj.owner,
    Remaining.discard, *]

theorem exec_notifyMac (now : ℚ) (left : Remaining) (l : List Message) {m : Value}
    (h : Holds ids w (.mac m)) : exec (notifyMac now ids left m) (w.say l) =
      (.ok (left.discard [] [] 1), w.say (l ++ [currentMessage now w (.mac m)])) := by
  obtain ⟨macId, hmac, hmac'⟩ := h (.mac m) le_rfl
  simp only [Obj.tuple] at hmac
  unfold notifyMac
  rw [exec_bind_ok (exec_sessionId hmac _), exec_bind_ok (exec_alone _ _),
    exec_bind_ok (exec_alone _ _), exec_pure]
  simp [notifyNewMacSession, currentMessage, startMessage, World.say, World.portOf, Obj.owner,
    Remaining.discard, *]

/-- A loop whose steps notify an object each, and discard sessions. -/
theorem exec_loop {α : Type} {f : Remaining → α → Raising LookupError World Remaining}
    (now : ℚ) (vlans : α → List (Value × Value)) (macs : α → List Value) (obj : α → Obj)
    (xs : List α) (step : ∀ x ∈ xs, ∀ left l, exec (f left x) (w.say l) =
      (.ok (left.discard (vlans x) (macs x) 1), w.say (l ++ [currentMessage now w (obj x)])))
    (left : Remaining) (l : List Message) : exec (xs.foldlM f left) (w.say l) =
      (.ok (left.discard (xs.flatMap vlans) (xs.flatMap macs) xs.length),
        w.say (l ++ (xs.map obj).map (currentMessage now w))) := by
  induction xs generalizing left l with
  | nil => simp [Remaining.discard]
  | cons x xs ih =>
    rw [List.foldlM_cons, exec_bind_ok (step x List.mem_cons_self left l),
      ih (fun y hy => step y (List.mem_cons_of_mem _ hy)), Remaining.discard_discard]
    simp [Nat.add_comm]

/-! ## The leaf sessions -/

theorem maximal_ip {m v i : Value} :
    Maximal (· ∈ support w.seenAt) (.ip m v i) ↔ .ip m v i ∈ support w.seenAt := by
  refine ⟨fun h => h.prop, fun h => ⟨h, fun y _ hle => ?_⟩⟩
  cases y <;> simp_all

theorem maximal_vlan {m v : Value} : Maximal (· ∈ support w.seenAt) (.vlan m v) ↔
    .vlan m v ∈ support w.seenAt ∧ ∀ i, .ip m v i ∉ support w.seenAt := by
  refine ⟨fun h => ⟨h.prop, fun i hi => ?_⟩, fun ⟨h, bare⟩ => ⟨h, fun y hy hle => ?_⟩⟩
  · exact Obj.not_ip_le_vlan (h.le_of_ge hi (by simp))
  · cases y with
    | mac m' => exact (Obj.not_vlan_le_mac hle).elim
    | vlan m' v' =>
      obtain ⟨rfl, rfl⟩ := hle
      exact le_rfl
    | ip m' v' i =>
      obtain ⟨rfl, rfl⟩ := hle
      exact (bare i hy).elim

theorem maximal_mac (lower : IsLowerSet (support w.seenAt)) {m : Value} :
    Maximal (· ∈ support w.seenAt) (.mac m) ↔
      .mac m ∈ support w.seenAt ∧ ∀ v, .vlan m v ∉ support w.seenAt := by
  refine ⟨fun h => ⟨h.prop, fun v hv => ?_⟩, fun ⟨h, bare⟩ => ⟨h, fun y hy hle => ?_⟩⟩
  · exact Obj.not_vlan_le_mac (h.le_of_ge hv (by simp))
  · have hm : m = y.owner := Obj.owner_eq_of_le hle
    cases y with
    | mac m' => exact hm.symm
    | vlan m' v' => exact (bare v' (hm ▸ hy)).elim
    | ip m' v' i' =>
      obtain rfl : m = m' := hm
      exact (bare v' (lower (show Obj.vlan m v' ≤ .ip m v' i' by simp) hy)).elim

/-- An open session is a leaf or lies above one. -/
theorem exists_leaf {x : Obj} (hx : x ∈ support w.seenAt) :
    ∃ o, x ≤ o ∧ Maximal (· ∈ support w.seenAt) o := by
  have finite : (support w.seenAt).Finite :=
    (List.finite_toSet w.lastSeen.keys).subset fun o ho =>
      AList.lookup_isSome.mp (Option.isSome_iff_ne_none.mpr ho)
  exact finite.exists_le_maximal hx

/-- What a consumer knows after the messages of some open sessions. -/
theorem replay_currentMessages (now : ℚ) (w : World) (l : List Obj) (c : Consumer) :
    (∀ x, (c.replay (l.map (currentMessage now w))).ids x =
      if ∃ o ∈ l, x ≤ o then w.idOf x else c.ids x) ∧
    ∀ m, (c.replay (l.map (currentMessage now w))).ports m =
      if ∃ o ∈ l, o.owner = m then (w.portOf m).or (c.ports m) else c.ports m := by
  induction l generalizing c with
  | nil => simp
  | cons o l ih =>
    obtain ⟨ids, ports⟩ := ih (c.receive (currentMessage now w o))
    rw [currentMessage_eq, receive_startMessage] at ids ports
    rw [List.map_cons, Consumer.replay_cons, currentMessage_eq, receive_startMessage]
    refine ⟨fun x => ?_, fun m => ?_⟩
    · rw [ids]
      by_cases hx : x ≤ o <;> simp [hx]
    · rw [ports]
      by_cases hm : o.owner = m
      · subst hm
        cases w.portOf o.owner <;> simp
      · cases w.portOf o.owner <;> simp [hm, Ne.symm hm]

/-- A consumer that receives the messages of all leaf sessions knows every session. -/
theorem mirrors_leaves (inv : Invariant N P w) (now : ℚ) {leaves : List Obj}
    (all : ∀ o, o ∈ leaves ↔ Maximal (· ∈ support w.seenAt) o) :
    Mirrors N (Consumer.empty.replay (leaves.map (currentMessage now w))) w := by
  obtain ⟨ids, ports⟩ := replay_currentMessages now w leaves Consumer.empty
  have told : ∀ x, (∃ o ∈ leaves, x ≤ o) ↔ x ∈ support w.seenAt := by
    intro x
    constructor
    · rintro ⟨o, ho, hle⟩
      exact inv.lower hle ((all o).mp ho).prop
    · intro hx
      obtain ⟨o, hle, ho⟩ := exists_leaf hx
      exact ⟨o, (all o).mpr ho, hle⟩
  have owned : ∀ m, (∃ o ∈ leaves, o.owner = m) ↔ .mac m ∈ support w.seenAt := by
    intro m
    rw [← told]
    refine exists_congr fun o => and_congr_right fun _ => ?_
    cases o <;> simp [Obj.owner, eq_comm]
  refine ⟨fun x hx => ?_, fun x hx => ?_, inv.fieldNamed, fun m hm => ?_, fun m hm => ?_,
    inv.portMac⟩
  · rw [ids]
    split
    · rfl
    · rename_i untold
      have absent : x ∉ support w.seenAt := fun hs => untold ((told x).mpr hs)
      exact (not_not.mp (mt (inv.ids x hx).mpr absent)).symm
  · rw [ids, if_neg fun hs => hx (inv.named ((told x).mp hs))]
    rfl
  · rw [ports]
    split
    · exact Option.or_none
    · rename_i unowned
      have absent : .mac m ∉ support w.seenAt := fun hs => unowned ((owned m).mpr hs)
      exact (not_not.mp (mt (inv.port m hm) absent)).symm
  · rw [ports, if_neg fun hs => hm (inv.named ((owned m).mp hs))]
    rfl

/-! ## The whole call -/

/-- The three sets hold the open sessions of each kind. -/
structure Keyed (ids : Dict Tuple ℕ) (w : World) : Prop where
  ip : ∀ m v i, (m, v, i) ∈ ipSessions ids ↔ .ip m v i ∈ support w.seenAt
  vlan : ∀ m v, (m, v) ∈ vlanSessions ids ↔ .vlan m v ∈ support w.seenAt
  mac : ∀ m, m ∈ macSessions ids ↔ .mac m ∈ support w.seenAt

theorem keyed_of_keys (proper : ∀ x ∈ support w.seenAt, x.Proper)
    (keys : ∀ key, key ∈ ids.keys ↔ ∃ o ∈ support w.seenAt, o.tuple = key) : Keyed ids w where
  ip m v i := by
    simp only [ipSessions, List.mem_filter, keys, decide_eq_true_eq]
    constructor
    · rintro ⟨⟨o, ho, htuple⟩, hi⟩
      cases o <;> cases htuple
      · exact absurd rfl hi
      · exact absurd rfl hi
      · exact ho
    · exact fun h => ⟨⟨_, h, rfl⟩, (proper _ h).2⟩
  vlan m v := by
    simp only [vlanSessions, List.mem_map, List.mem_filter, keys, decide_eq_true_eq]
    constructor
    · rintro ⟨⟨m', v', i'⟩, ⟨⟨o, ho, htuple⟩, hi, hv⟩, he⟩
      have hproper := proper o ho
      cases o <;> cases htuple <;> cases he
      · exact absurd rfl hv
      · exact ho
      · exact absurd hi hproper.2
    · exact fun h => ⟨(m, v, .none), ⟨⟨_, h, rfl⟩, rfl, proper _ h⟩, rfl⟩
  mac m := by
    simp only [macSessions, List.mem_map, List.mem_filter, keys, decide_eq_true_eq]
    constructor
    · rintro ⟨⟨m', v', i'⟩, ⟨⟨o, ho, htuple⟩, hi, hv⟩, he⟩
      have hproper := proper o ho
      cases o <;> cases htuple <;> cases he
      · exact ho
      · exact absurd hv hproper
      · exact absurd hi hproper.2
    · exact fun h => ⟨(m, .none, .none), ⟨⟨_, h, rfl⟩, rfl, rfl⟩, rfl⟩

/-- The VLAN sessions that the first loop leaves. -/
def leafVlans (ids : Dict Tuple ℕ) : List (Value × Value) :=
  (vlanSessions ids).filter (· ∉ (ipSessions ids).flatMap fun (mac, vlan, _) => [(mac, vlan)])

/-- The MAC sessions that both loops leave. -/
def leafMacs (ids : Dict Tuple ℕ) : List Value :=
  (macSessions ids).filter
    (· ∉ ((ipSessions ids).flatMap fun (mac, _) => [mac]) ++
      (leafVlans ids).flatMap fun (mac, _) => [mac])

/-- The sessions that are notified, in turn. -/
def leavesOf (ids : Dict Tuple ℕ) : List Obj :=
  ((ipSessions ids).map fun (mac, vlan, ip) => .ip mac vlan ip) ++
    ((leafVlans ids).map fun (mac, vlan) => .vlan mac vlan) ++ (leafMacs ids).map .mac

theorem mem_leafVlans (keyed : Keyed ids w) {m v : Value} : (m, v) ∈ leafVlans ids ↔
    .vlan m v ∈ support w.seenAt ∧ ∀ i, .ip m v i ∉ support w.seenAt := by
  simp only [leafVlans, List.mem_filter, keyed.vlan, ← keyed.ip, List.mem_flatMap,
    decide_eq_true_eq]
  refine and_congr_right fun _ => ⟨fun h i hi => h ⟨_, hi, by simp⟩, ?_⟩
  rintro bare ⟨⟨m', v', i⟩, hi, hin⟩
  cases List.mem_singleton.mp hin
  exact bare i hi

theorem mem_leafMacs (lower : IsLowerSet (support w.seenAt)) (keyed : Keyed ids w) {m : Value} :
    m ∈ leafMacs ids ↔ .mac m ∈ support w.seenAt ∧ ∀ v, .vlan m v ∉ support w.seenAt := by
  simp only [leafMacs, List.mem_filter, keyed.mac, List.mem_append, List.mem_flatMap, not_or,
    decide_eq_true_eq]
  refine and_congr_right fun _ => ⟨?_, fun bare => ⟨?_, ?_⟩⟩
  · rintro ⟨ips, vlans⟩ v hv
    have unlisted : ∀ i, .ip m v i ∉ support w.seenAt := fun i hi =>
      ips ⟨(m, v, i), (keyed.ip m v i).mpr hi, by simp⟩
    exact vlans ⟨(m, v), (mem_leafVlans keyed).mpr ⟨hv, unlisted⟩, by simp⟩
  · rintro ⟨⟨m', v, i⟩, hi, hin⟩
    cases List.mem_singleton.mp hin
    have hip := (keyed.ip m' v i).mp hi
    exact bare v (lower (show Obj.vlan m' v ≤ .ip m' v i by simp) hip)
  · rintro ⟨⟨m', v⟩, hv, hin⟩
    cases List.mem_singleton.mp hin
    exact bare v ((mem_leafVlans keyed).mp hv).1

theorem mem_leavesOf (lower : IsLowerSet (support w.seenAt)) (keyed : Keyed ids w) (o : Obj) :
    o ∈ leavesOf ids ↔ Maximal (· ∈ support w.seenAt) o := by
  cases o with
  | ip m v i =>
    rw [maximal_ip, ← keyed.ip]
    simp [leavesOf]
  | vlan m v =>
    rw [maximal_vlan, ← mem_leafVlans keyed]
    simp [leavesOf]
  | mac m =>
    rw [maximal_mac lower, ← mem_leafMacs lower keyed]
    simp [leavesOf]

theorem nodup_leavesOf (ids : Dict Tuple ℕ) : (leavesOf ids).Nodup := by
  have keys : ids.keys.Nodup := ids.nodup
  have ips : (ipSessions ids).Nodup := keys.filter _
  have vlans : (leafVlans ids).Nodup := by
    refine ((keys.filter _).map_on ?_).filter _
    rintro ⟨m, v, i⟩ h ⟨m', v', i'⟩ h' he
    simp_all
  have macs : (leafMacs ids).Nodup := by
    refine ((keys.filter _).map_on ?_).filter _
    rintro ⟨m, v, i⟩ h ⟨m', v', i'⟩ h' he
    simp_all
  simp only [leavesOf, List.nodup_append, List.mem_append, List.mem_map]
  refine ⟨⟨ips.map ?_, vlans.map ?_, ?_⟩, macs.map ?_, ?_⟩
  · rintro ⟨m, v, i⟩ ⟨m', v', i'⟩ he
    cases he
    rfl
  · rintro ⟨m, v⟩ ⟨m', v'⟩ he
    cases he
    rfl
  · rintro _ ⟨ip, -, rfl⟩ _ ⟨vlan, -, rfl⟩ he
    cases he
  · intro m m' he
    cases he
    rfl
  · rintro _ (⟨ip, -, rfl⟩ | ⟨vlan, -, rfl⟩) _ ⟨mac, -, rfl⟩ he
    · cases he
    · cases he

/-- The call sends a message for each leaf, in turn, and counts them. -/
theorem exec_notifyCurrentSessions (now : ℚ) {scan : List (String × ℕ)}
    (read : getCurrentSessionIds scan = .ok ids) (keyed : Keyed ids w)
    (lower : IsLowerSet (support w.seenAt)) (holds : ∀ o ∈ support w.seenAt, Holds ids w o) :
    exec (notifyCurrentSessions now scan) w = (.ok (leavesOf ids).length,
      w.say ((leavesOf ids).map (currentMessage now w))) := by
  have ips := exec_loop (w := w) now (fun (mac, vlan, _) => [(mac, vlan)]) (fun (mac, _) => [mac])
    (fun (mac, vlan, ip) => .ip mac vlan ip) (ipSessions ids) (f := notifyIp now ids)
    fun (m, v, i) h left l => exec_notifyIp now left l (holds _ ((keyed.ip m v i).mp h))
  have vlans := exec_loop (w := w) now (fun _ => []) (fun (mac, _) => [mac])
    (fun (mac, vlan) => .vlan mac vlan) (leafVlans ids) (f := notifyVlan now ids)
    fun (m, v) h left l => exec_notifyVlan now left l (holds _ ((mem_leafVlans keyed).mp h).1)
  have macs := exec_loop (w := w) now (fun _ => []) (fun _ => []) .mac (leafMacs ids)
    (f := notifyMac now ids)
    fun m h left l => exec_notifyMac now left l (holds _ ((mem_leafMacs lower keyed).mp h).1)
  unfold notifyCurrentSessions
  rw [exec_bind_ok (show exec _ w = (.ok ids, w) by rw [exec_ofRun, read])]
  nth_rewrite 1 [← say_nil w]
  rw [exec_bind_ok (ips _ [])]
  refine (exec_bind_ok (vlans _ _)).trans ?_
  rw [Remaining.discard_discard]
  refine (exec_bind_ok (macs _ _)).trans ?_
  simp [leavesOf, Remaining.discard, Nat.add_assoc]

/-- With every leaf session told again, whatever the order of the scan, the call returns
their number, and a consumer that receives nothing else knows every open session. -/
theorem notifyCurrentSessions_leaves (names : Names N P) (survive : Survive N) (cs : List Call)
    (h : ∀ c ∈ cs, c.Uses N P) (now : ℚ) {scan : List (String × ℕ)}
    (scans : Scans scan (World.empty.calls cs)) :
    ∃ leaves : List Obj, leaves.Nodup ∧
      (∀ o, o ∈ leaves ↔ Maximal (· ∈ support (World.empty.calls cs).seenAt) o) ∧
      exec (notifyCurrentSessions now scan) (World.empty.calls cs) = (.ok leaves.length,
        (World.empty.calls cs).say
          (leaves.map (currentMessage now (World.empty.calls cs)))) ∧
      Mirrors N (Consumer.empty.replay
        (leaves.map (currentMessage now (World.empty.calls cs)))) (World.empty.calls cs) := by
  have inv := invariant_calls names cs h
  generalize World.empty.calls cs = w at scans inv
  obtain ⟨ids, read, get, keys⟩ := getCurrentSessionIds_ok survive inv scans
  have holds : ∀ o ∈ support w.seenAt, Holds ids w o := by
    intro o ho x hx
    have hxs := inv.lower hx ho
    obtain ⟨id, hid⟩ := Option.ne_none_iff_exists'.mp ((inv.ids x (inv.named hxs)).mp hxs)
    exact ⟨id, (get x (inv.named hxs)).trans hid, hid⟩
  have keyed : Keyed ids w := keyed_of_keys inv.proper fun key => by
    refine ⟨keys key, ?_⟩
    rintro ⟨o, ho, rfl⟩
    obtain ⟨id, hid, -⟩ := holds o ho o le_rfl
    exact Dict.mem_keys.mpr ⟨id, hid⟩
  have all := mem_leavesOf inv.lower keyed
  exact ⟨leavesOf ids, nodup_leavesOf ids, all,
    exec_notifyCurrentSessions now read keyed inv.lower holds, mirrors_leaves inv now all⟩

/-- The items of the hash, once each. -/
def World.scan (w : World) : List (String × ℕ) := w.sessionIds.entries.map fun e => (e.1, e.2)

theorem scans_scan (w : World) : Scans w.scan w := by
  intro f id
  rw [← Option.mem_def, AList.mem_lookup_iff]
  constructor
  · intro h
    obtain ⟨⟨g, n⟩, hmem, he⟩ := List.mem_map.mp h
    cases he
    exact hmem
  · exact fun h => List.mem_map.mpr ⟨⟨f, id⟩, h, rfl⟩

theorem notifyCurrentSessions_leaves_roaming :
    ∃ leaves : List Obj, leaves.Nodup ∧
      (∀ o, o ∈ leaves ↔ Maximal (· ∈ support (World.empty.calls roamingCalls).seenAt) o) ∧
      exec (notifyCurrentSessions 103 (World.empty.calls roamingCalls).scan)
        (World.empty.calls roamingCalls) = (.ok leaves.length,
          (World.empty.calls roamingCalls).say
            (leaves.map (currentMessage 103 (World.empty.calls roamingCalls)))) ∧
      Mirrors {o | o ∈ roamingObjs} (Consumer.empty.replay
        (leaves.map (currentMessage 103 (World.empty.calls roamingCalls))))
        (World.empty.calls roamingCalls) :=
  notifyCurrentSessions_leaves roamingNames
    (survive_of_plain (by simp [roamingObjs, Obj.Plain, Plain])) roamingCalls roamingCalls_uses 103
    (scans_scan _)

/-- Two devices whose VLANs have one index of IPs. -/
def keyErrorCalls : List Call := sharedKeyCalls ++ [.ends 102 "a" .none .none none]

/-- The end of one device leaves an IP session without parents, although all names survive:
the first look-up of its MAC raises. -/
theorem notifyCurrentSessions_orphan :
    (∀ o ∈ sharedKeyObjs, fieldToMacVlanIp o.field = some o.tuple) ∧
    (∀ c ∈ keyErrorCalls, c.obj ∈ sharedKeyObjs) ∧
    (exec (notifyCurrentSessions 103 (World.empty.calls keyErrorCalls).scan)
      (World.empty.calls keyErrorCalls)).1 = .error (.keyError ("a", .none, .none)) := by
  refine ⟨by decide +kernel, ?_, by decide +kernel⟩
  simp [keyErrorCalls, sharedKeyCalls, Call.obj, objOf, sharedKeyObjs]

end ElanAgent.Session
