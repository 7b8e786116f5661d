import ElanAgent.Library.Hierarchy
import ElanAgent.Session.Calls

/-!
# Names of objects and of Redis keys

Objects are ordered by inclusion of their dictionaries, so `{mac}` is the least of
its MAC. `Obj.field` and `Key.path` are the texts under which an object's session id
and an index set are stored. Nothing stops two names from rendering to one text;
`Names` is the assumption that those in use do not.
-/

namespace ElanAgent.Session

/-- The dictionary `o` is part of the dictionary `x`. -/
def Obj.Below : Obj → Obj → Prop
  | .mac m, .mac m' => m = m'
  | .mac m, .vlan m' _ => m = m'
  | .mac m, .ip m' _ _ => m = m'
  | .vlan m v, .vlan m' v' => m = m' ∧ v = v'
  | .vlan m v, .ip m' v' _ => m = m' ∧ v = v'
  | .ip m v i, .ip m' v' i' => m = m' ∧ v = v' ∧ i = i'
  | _, _ => False

instance : DecidableRel Obj.Below := fun o x => by
  cases o <;> cases x <;> unfold Obj.Below <;> infer_instance

instance : PartialOrder Obj where
  le := Obj.Below
  le_refl o := by cases o <;> simp [Obj.Below]
  le_trans o x y := by
    cases o <;> cases x <;> cases y <;> simp +contextual [Obj.Below]
  le_antisymm o x := by
    cases o <;> cases x <;> simp +contextual [Obj.Below]

instance : DecidableLE Obj := fun o x => inferInstanceAs (Decidable (o.Below x))

namespace Obj

@[simp] theorem mac_le_mac {m m' : Value} : mac m ≤ mac m' ↔ m = m' := Iff.rfl
@[simp] theorem mac_le_vlan {m m' v' : Value} : mac m ≤ vlan m' v' ↔ m = m' := Iff.rfl
@[simp] theorem mac_le_ip {m m' v' i' : Value} : mac m ≤ ip m' v' i' ↔ m = m' := Iff.rfl
@[simp] theorem vlan_le_vlan {m v m' v' : Value} :
    vlan m v ≤ vlan m' v' ↔ m = m' ∧ v = v' := Iff.rfl
@[simp] theorem vlan_le_ip {m v m' v' i' : Value} :
    vlan m v ≤ ip m' v' i' ↔ m = m' ∧ v = v' := Iff.rfl
@[simp] theorem ip_le_ip {m v i m' v' i' : Value} :
    ip m v i ≤ ip m' v' i' ↔ m = m' ∧ v = v' ∧ i = i' := Iff.rfl
@[simp] theorem not_vlan_le_mac {m v m' : Value} : ¬ vlan m v ≤ mac m' := id
@[simp] theorem not_ip_le_mac {m v i m' : Value} : ¬ ip m v i ≤ mac m' := id
@[simp] theorem not_ip_le_vlan {m v i m' v' : Value} : ¬ ip m v i ≤ vlan m' v' := id

/-- The MAC of an object. -/
def owner : Obj → Value
  | .mac m | .vlan m _ | .ip m _ _ => m

theorem owner_eq_of_le {o x : Obj} (h : o ≤ x) : o.owner = x.owner := by
  cases o <;> cases x <;> simp_all [owner]

/-- The dictionary of the object has no null value below `mac`. -/
def Proper : Obj → Prop
  | .mac _ => True
  | .vlan _ v => v ≠ .none
  | .ip _ v i => v ≠ .none ∧ i ≠ .none

end Obj

/-- The kinds of session. -/
inductive Kind where
  | mac
  | vlan
  | ip
  deriving DecidableEq

def Obj.kind : Obj → Kind
  | .mac _ => .mac
  | .vlan _ _ => .vlan
  | .ip _ _ _ => .ip

/-- The object that the arguments of a call name. -/
def objOf (mac vlan ip : Value) : Obj :=
  if vlan = .none then .mac mac else if ip = .none then .vlan mac vlan else .ip mac vlan ip

@[simp] theorem objOf_mac (m i : Value) : objOf m .none i = .mac m := if_pos rfl

theorem objOf_vlan {m v : Value} (hv : v ≠ .none) : objOf m v .none = .vlan m v := by
  simp [objOf, hv]

theorem objOf_ip {m v i : Value} (hv : v ≠ .none) (hi : i ≠ .none) :
    objOf m v i = .ip m v i := by
  simp [objOf, hv, hi]

theorem objOf_owner (mac vlan ip : Value) : (objOf mac vlan ip).owner = mac := by
  unfold objOf
  split_ifs <;> rfl

theorem mac_le_objOf (mac vlan ip : Value) : Obj.mac mac ≤ objOf mac vlan ip := by
  unfold objOf
  split_ifs <;> simp

theorem vlan_le_objOf {mac vlan ip m v : Value} :
    .vlan m v ≤ objOf mac vlan ip ↔ vlan ≠ .none ∧ m = mac ∧ v = vlan := by
  unfold objOf
  split_ifs <;> simp [*]

theorem ip_le_objOf {mac vlan ip m v i : Value} :
    .ip m v i ≤ objOf mac vlan ip ↔
      vlan ≠ .none ∧ ip ≠ .none ∧ m = mac ∧ v = vlan ∧ i = ip := by
  unfold objOf
  split_ifs <;> simp [*]

theorem proper_of_le_objOf {mac vlan ip : Value} {x : Obj} (h : x ≤ objOf mac vlan ip) :
    x.Proper := by
  cases x with
  | mac m => trivial
  | vlan m v =>
    obtain ⟨hv, -, rfl⟩ := vlan_le_objOf.mp h
    exact hv
  | ip m v i =>
    obtain ⟨hv, hi, -, rfl, rfl⟩ := ip_le_objOf.mp h
    exact ⟨hv, hi⟩

theorem eq_of_le_objOf {mac vlan ip : Value} {x : Obj} (h : x ≤ objOf mac vlan ip) :
    x = .mac mac ∨ x = .vlan mac vlan ∨ x = .ip mac vlan ip := by
  unfold objOf at h
  cases x <;> split_ifs at h <;> simp_all

/-- A call that closes a MAC names it. -/
theorem objOf_le_mac {mac vlan ip m : Value} :
    objOf mac vlan ip ≤ .mac m ↔ vlan = .none ∧ mac = m := by
  unfold objOf
  split_ifs <;> simp [*]

def Call.obj : Call → Obj
  | .seen _ mac vlan _ ip _ => objOf mac vlan ip
  | .ends _ mac vlan ip _ => objOf mac vlan ip

/-- The port that a call is given. -/
def Call.port : Call → Option Port
  | .seen _ _ _ port _ _ => port
  | .ends _ _ _ _ _ => none

/-- The index sets of the store. -/
inductive Key where
  | vlans (mac : Value)
  | ips (mac vlan : Value)
  | portMacs (localId interface : Value)
  deriving DecidableEq

/-- The Redis key of an index set. -/
def Key.path : Key → String
  | .vlans mac => macVlansPath mac
  | .ips mac vlan => macVlanIpsPath mac vlan
  | .portMacs localId interface => portMacsPath ⟨localId, interface, none, ∅⟩

/-- The index sets that calls on the objects `N` and the ports `P` touch. -/
def keysOf (N : Set Obj) (P : Set Port) : Set Key :=
  {k | match k with
    | .vlans mac => Obj.mac mac ∈ N
    | .ips mac vlan => Obj.vlan mac vlan ∈ N
    | .portMacs localId interface => ∃ p ∈ P, p.localId = localId ∧ p.interface = interface}

/-- Distinct objects of `N` have distinct fields. -/
structure Fields (N : Set Obj) : Prop where
  lower : IsLowerSet N
  field : Set.InjOn Obj.field N

/-- Moreover no index of VLANs or IPs shares its key with another index set of `N` and `P`. -/
structure Names (N : Set Obj) (P : Set Port) : Prop extends Fields N where
  key : ∀ k ∈ keysOf N ∅, ∀ k' ∈ keysOf N P, k.path = k'.path → k = k'

/-- The objects that contain an object's dictionary in turn. -/
def Obj.parents : Obj → List Obj
  | .mac _ => []
  | .vlan m _ => [.mac m]
  | .ip m v _ => [.mac m, .vlan m v]

theorem Obj.mem_parents_of_le {o x : Obj} (h : x ≤ o) : x = o ∨ x ∈ o.parents := by
  cases o <;> cases x <;> simp_all [parents]

/-- The index sets of an object. -/
def Obj.keys : Obj → List Key
  | .mac m => [.vlans m]
  | .vlan m v => [.ips m v]
  | .ip _ _ _ => []

/-- A check that finitely many objects and ports have the names they need. -/
def namesOk (objs : List Obj) (ports : List Port) : Bool :=
  let index := objs.flatMap Obj.keys
  let sets := ports.map fun p => Key.portMacs p.localId p.interface
  decide ((∀ o ∈ objs, ∀ x ∈ o.parents, x ∈ objs) ∧
    (∀ o ∈ objs, ∀ x ∈ objs, o.field = x.field → o = x) ∧
    ∀ k ∈ index, ∀ k' ∈ index ++ sets, k.path = k'.path → k = k')

theorem names_of_ok {objs : List Obj} {ports : List Port} (h : namesOk objs ports = true) :
    Names {o | o ∈ objs} {p | p ∈ ports} := by
  obtain ⟨hparents, hfield, hkey⟩ := of_decide_eq_true h
  have index : ∀ k ∈ keysOf {o | o ∈ objs} ∅, k ∈ objs.flatMap Obj.keys := by
    intro k hk
    cases k with
    | vlans m => exact List.mem_flatMap.mpr ⟨_, hk, by simp [Obj.keys]⟩
    | ips m v => exact List.mem_flatMap.mpr ⟨_, hk, by simp [Obj.keys]⟩
    | portMacs l i => simp [keysOf] at hk
  have listed : ∀ k ∈ keysOf {o | o ∈ objs} {p | p ∈ ports},
      k ∈ objs.flatMap Obj.keys ++ ports.map fun p => Key.portMacs p.localId p.interface := by
    intro k hk
    cases k with
    | vlans m => exact List.mem_append_left _ (index _ hk)
    | ips m v => exact List.mem_append_left _ (index _ hk)
    | portMacs l i =>
      obtain ⟨p, hp, rfl, rfl⟩ := hk
      exact List.mem_append_right _ (List.mem_map.mpr ⟨p, hp, rfl⟩)
  refine ⟨⟨fun o x hxo ho => ?_, fun o ho x hx => hfield o ho x hx⟩,
    fun k hk k' hk' => hkey k (index k hk) k' (listed k' hk')⟩
  rcases Obj.mem_parents_of_le hxo with rfl | hx
  · exact ho
  · exact hparents o ho x hx

/-- The call only uses the names `N` and `P`. -/
def Call.Uses (N : Set Obj) (P : Set Port) (c : Call) : Prop :=
  c.obj ∈ N ∧ ∀ p ∈ c.port, p ∈ P

end ElanAgent.Session
