import ElanAgent.Session.Tracker

/-!
# What a check does

`Expires` is the effect of a check, structure by structure. The objects that the check
ends lie under none of one another, so each is still there, with its ids and those of its
parents, when its turn comes; the cascades of their ends reach every expired object. That
they reach nothing else needs the scores to be ordered along the hierarchy.
-/

namespace ElanAgent.Session

open Atomic Redis Hierarchy

variable {N : Set Obj} {P : Set Port} {w : World}

/-- The object directly above. -/
def Obj.parent : Obj → Option Obj
  | .mac _ => none
  | .vlan m _ => some (.mac m)
  | .ip m v _ => some (.vlan m v)

/-- The score of an object in the whole seconds of its end message: that of an IP is
rounded down, any other first to microseconds. -/
def endSeconds : Obj × ℚ → ℤ
  | (.ip _ _ _, lastSeen) => ⌊lastSeen⌋
  | (_, lastSeen) => micros lastSeen / 1000000

/-- The objects that a check ends, with their scores. -/
def Topmost (now : ℚ) (w : World) (o : Obj) (s : ℚ) : Prop :=
  w.seenAt o = some s ∧ s ≤ now - expiryObjectAfter ∧ ∀ p ∈ o.parent, ¬ Expired now w p

/-- The effect of a check from `w` to `w'`. -/
structure Expires (now : ℚ) (w w' : World) : Prop where
  removed : ∀ o, Expired now w o → w'.seenAt o = none ∧ w'.sessionIds.lookup o.field = none
  kept : ∀ o, ¬ Expired now w o → w'.seenAt o = w.seenAt o
  keptIds : ∀ f, (∀ o, o.field = f → ¬ Expired now w o) →
    w'.sessionIds.lookup f = w.sessionIds.lookup f
  published : ∃ ended : List (Obj × ℚ), (ended.map (·.1)).Nodup ∧
    (∀ o s, (o, s) ∈ ended ↔ Topmost now w o s) ∧
    w'.published = w.published ++ ended.map fun e =>
      { endMessage now w.idOf e.2 e.1 with ended := some (endSeconds e) }

/-! ## Ending one object after the other -/

/-- The time that `end` is given. -/
def endTime : Obj × ℚ → ℚ
  | (.ip _ _ _, lastSeen) => truncate lastSeen
  | (_, lastSeen) => lastSeen

theorem endOf_eq (now s : ℚ) {o : Obj} (h : o.Proper) : ∃ mac vlan ip,
    endOf now (o, s) = .ends now mac vlan ip (some (endTime (o, s))) ∧
      objOf mac vlan ip = o ∧ (ip = .none ∨ vlan ≠ .none) := by
  cases o with
  | mac m => exact ⟨m, .none, .none, rfl, by simp, .inl rfl⟩
  | vlan m v => exact ⟨m, v, .none, rfl, objOf_vlan h, .inl rfl⟩
  | ip m v i => exact ⟨m, v, i, rfl, objOf_ip h.1 h.2, .inr h.1⟩

/-- The end of an object that is there prunes both maps and is published. -/
theorem step_endOf (names : Names N P) (inv : Invariant N P w) (now s : ℚ) {o : Obj}
    (ho : o ∈ support w.seenAt) :
    Invariant N P (w.step (endOf now (o, s))) ∧
    (w.step (endOf now (o, s))).seenAt = prune o w.seenAt ∧
    (∀ x ∈ N, (w.step (endOf now (o, s))).idOf x = prune o w.idOf x) ∧
    (w.step (endOf now (o, s))).published =
      w.published ++ [endMessage now w.idOf (endTime (o, s)) o] := by
  have hN : o ∈ N := inv.named ho
  have hid : w.idOf o ≠ none := (inv.ids o hN).mp ho
  obtain ⟨mac, vlan, ip, hcall, hobj, hends⟩ := endOf_eq now s (inv.proper o ho)
  rw [← hobj] at hN
  have effect := ends_effect inv names now hends hN (some (endTime (o, s)))
  have hstep : w.step (endOf now (o, s)) =
      ((endSession now mac vlan ip (some (endTime (o, s)))).run handler w).2 := by
    simp [hcall, World.step, Call.prog]
  rw [← hstep] at effect
  refine ⟨effect.invariant inv names hN, hobj ▸ effect.seenAt, hobj ▸ effect.idOf, ?_⟩
  rw [effect.published, hobj, if_neg hid]
  rfl

/-- The message depends on the ids of the object and of those it is under. -/
theorem endMessage_congr (now time : ℚ) {ids ids' : Obj → Option Nat} {o : Obj}
    (h : ∀ x ≤ o, ids x = ids' x) : endMessage now ids time o = endMessage now ids' time o := by
  cases o <;> simp [endMessage, h]

/-- Ending objects that lie under none of one another: each is there at its turn. -/
theorem calls_endOf (names : Names N P) (inv : Invariant N P w) (now : ℚ)
    {ended : List (Obj × ℚ)} (present : ∀ e ∈ ended, e.1 ∈ support w.seenAt)
    (apart : ended.Pairwise fun e e' => ¬ e.1 ≤ e'.1) :
    Invariant N P (w.calls (ended.map (endOf now))) ∧
    (∀ x, (∃ e ∈ ended, e.1 ≤ x) → (w.calls (ended.map (endOf now))).seenAt x = none ∧
      (x ∈ N → (w.calls (ended.map (endOf now))).idOf x = none)) ∧
    (∀ x, (∀ e ∈ ended, ¬ e.1 ≤ x) →
      (w.calls (ended.map (endOf now))).seenAt x = w.seenAt x ∧
      (x ∈ N → (w.calls (ended.map (endOf now))).idOf x = w.idOf x)) ∧
    (w.calls (ended.map (endOf now))).published = w.published ++
      ended.map fun e => endMessage now w.idOf (endTime e) e.1 := by
  induction ended generalizing w with
  | nil => exact ⟨inv, by simp, fun x _ => ⟨rfl, fun _ => rfl⟩, by simp [World.calls]⟩
  | cons e ended ih =>
    obtain ⟨o, s⟩ := e
    obtain ⟨first, apart⟩ := List.pairwise_cons.mp apart
    obtain ⟨inv', seenAt, idOf, published⟩ :=
      step_endOf names inv now s (present _ List.mem_cons_self)
    have later : ∀ e ∈ ended, e.1 ∈ support (w.step (endOf now (o, s))).seenAt := by
      intro e he
      rw [seenAt, support_prune]
      exact ⟨present e (List.mem_cons_of_mem _ he), first e he⟩
    obtain ⟨inv'', gone, kept, said⟩ := ih inv' later apart
    refine ⟨inv'', ?_, ?_, ?_⟩
    · rintro x ⟨e, he, hle⟩
      by_cases hx : ∃ e ∈ ended, e.1 ≤ x
      · exact gone x hx
      · obtain ⟨keptSeen, keptId⟩ := kept x fun e he hle => hx ⟨e, he, hle⟩
        obtain rfl : e = (o, s) := (List.mem_cons.mp he).resolve_right fun he => hx ⟨e, he, hle⟩
        refine ⟨?_, fun hN => ?_⟩
        · exact keptSeen.trans (by rw [seenAt, prune_of_le hle])
        · exact (keptId hN).trans (by rw [idOf x hN, prune_of_le hle])
    · intro x hx
      have ho : ¬ o ≤ x := hx (o, s) List.mem_cons_self
      obtain ⟨keptSeen, keptId⟩ := kept x fun e he => hx e (List.mem_cons_of_mem _ he)
      refine ⟨?_, fun hN => ?_⟩
      · exact keptSeen.trans (by rw [seenAt, prune_of_not_le ho])
      · exact (keptId hN).trans (by rw [idOf x hN, prune_of_not_le ho])
    · have same : ended.map (fun e => endMessage now (w.step (endOf now (o, s))).idOf
          (endTime e) e.1) = ended.map fun e => endMessage now w.idOf (endTime e) e.1 := by
        refine List.map_congr_left fun e he => endMessage_congr now _ fun x hx => ?_
        have hN : x ∈ N := names.lower hx (inv.named (present e (List.mem_cons_of_mem _ he)))
        rw [idOf x hN, prune_of_not_le fun hox => first e he (hox.trans hx)]
      rw [same, published] at said
      exact said.trans (by rw [List.map_cons, List.append_assoc]; rfl)

/-! ## The check -/

/-- Under scores that are ordered, the objects above an object have all expired as soon as
one of them has. -/
theorem Ordered.expired {now : ℚ} (ordered : Ordered w) {o x : Obj} (hle : o ≤ x)
    (ho : Expired now w o) (hx : x ∈ support w.seenAt) : Expired now w x := by
  obtain ⟨s, hs, hexp⟩ := ho
  obtain ⟨t, ht⟩ := Option.ne_none_iff_exists'.mp hx
  exact ⟨t, ht, (ordered o x hle s t hs ht).trans hexp⟩

/-- The check ends an expired object unless the one directly above has expired. -/
theorem mem_endedOf_iff {now : ℚ} (lower : IsLowerSet (support w.seenAt)) (ordered : Ordered w)
    {o : Obj} {s : ℚ} : (o, s) ∈ endedOf now w ↔ Topmost now w o s := by
  rw [mem_endedOf, Topmost]
  refine and_congr_right fun hs => and_congr_right fun _ => ?_
  cases o with
  | mac m => simp [Obj.parents, Obj.parent]
  | vlan m v => simp [Obj.parents, Obj.parent]
  | ip m v i =>
    have hv : Obj.vlan m v ∈ support w.seenAt :=
      lower (show Obj.vlan m v ≤ .ip m v i by simp) (by simp [hs])
    have up : Expired now w (.mac m) → Expired now w (.vlan m v) := fun hm =>
      ordered.expired (by simp) hm hv
    simpa [Obj.parents, Obj.parent] using mt up

theorem endedOf_apart (now : ℚ) (w : World) :
    (endedOf now w).Pairwise fun e e' => ¬ e.1 ≤ e'.1 := by
  have distinct : (endedOf now w).Pairwise fun e e' => e.1 ≠ e'.1 :=
    List.pairwise_map.mp (nodup_endedOf now w)
  refine distinct.imp_of_mem fun {e e'} he he' hne hle => ?_
  obtain ⟨hs, hexp, -⟩ := mem_endedOf.mp he
  exact (mem_endedOf.mp he').2.2 e.1 ((Obj.mem_parents_of_le hle).resolve_left hne) ⟨_, hs, hexp⟩

theorem micros_int (n : ℤ) : micros n = n * 1000000 := by
  have h : ((n : ℚ) * 1000000) = ((n * 1000000 : ℤ) : ℚ) := by push_cast; rfl
  simp only [micros, h, Int.floor_intCast, sub_self]
  norm_num

/-- The date that the end message carries, for a score that is not below a second. -/
theorem formatDate_endTime (now : ℚ) {o : Obj} {s : ℚ} (h : 1 ≤ s) :
    formatDate now (some (endTime (o, s))) = endSeconds (o, s) := by
  have hs : s ≠ 0 := by linarith
  cases o with
  | mac m => simp [formatDate, endTime, endSeconds, hs]
  | vlan m v => simp [formatDate, endTime, endSeconds, hs]
  | ip m v i =>
    have hfloor : 1 ≤ ⌊s⌋ := Int.le_floor.mpr (by exact_mod_cast h)
    have hne : ((⌊s⌋ : ℤ) : ℚ) ≠ 0 := by exact_mod_cast (by omega : ⌊s⌋ ≠ 0)
    simp only [formatDate, endTime, endSeconds, truncate_nonneg (by linarith : 0 ≤ s), hne,
      if_false, micros_int]
    omega

theorem endMessage_endTime (now : ℚ) (ids : Obj → Option Nat) {o : Obj} {s : ℚ} (h : 1 ≤ s) :
    endMessage now ids (endTime (o, s)) o =
      { endMessage now ids s o with ended := some (endSeconds (o, s)) } := by
  have hd := formatDate_endTime now (o := o) h
  cases o <;> simp [endMessage, hd]

/-- What a check does to a store whose scores are ordered, none of them below a second. -/
theorem checkSessions_effect (names : Names N P) (inv : Invariant N P w) (ordered : Ordered w)
    (late : ∀ x s, w.seenAt x = some s → 1 ≤ s) (now : ℚ) :
    Expires now w ((checkSessions now).run handler w).2 := by
  have member : ∀ o s, (o, s) ∈ endedOf now w ↔ Topmost now w o s := fun o s =>
    mem_endedOf_iff inv.lower ordered
  have there : ∀ e ∈ endedOf now w, e.1 ∈ support w.seenAt := fun e he => by
    simp [(mem_endedOf.mp he).1]
  obtain ⟨inv', gone, kept, said⟩ := calls_endOf names inv now there (endedOf_apart now w)
  rw [checkSessions_run, checkCalls]
  generalize w.calls ((endedOf now w).map (endOf now)) = w' at inv' gone kept said
  have same : ∀ x, ¬ Expired now w x →
      w'.seenAt x = w.seenAt x ∧ (x ∈ N → w'.idOf x = w.idOf x) := by
    intro x hnot
    by_cases hx : ∃ e ∈ endedOf now w, e.1 ≤ x
    · obtain ⟨e, he, hle⟩ := hx
      have absent : x ∉ support w.seenAt := fun hx =>
        hnot (ordered.expired hle ⟨_, (mem_endedOf.mp he).1, (mem_endedOf.mp he).2.1⟩ hx)
      obtain ⟨goneSeen, goneId⟩ := gone x ⟨e, he, hle⟩
      refine ⟨goneSeen.trans (not_not.mp absent).symm, fun hN => (goneId hN).trans ?_⟩
      exact (not_not.mp (mt (inv.ids x hN).mpr absent)).symm
    · exact kept x fun e he hle => hx ⟨e, he, hle⟩
  refine ⟨fun o ho => ?_, fun o ho => (same o ho).1, fun f hf => ?_, endedOf now w,
    nodup_endedOf now w, member, ?_⟩
  · obtain ⟨goneSeen, goneId⟩ := gone o (exists_ended ho)
    obtain ⟨s, hs, -⟩ := ho
    exact ⟨goneSeen, goneId (inv.named (by simp [hs]))⟩
  · by_cases hN : ∃ x ∈ N, x.field = f
    · obtain ⟨x, hx, rfl⟩ := hN
      exact (same x (hf x rfl)).2 hx
    · have unnamed : ∀ u, Invariant N P u → u.sessionIds.lookup f = none := fun u hu =>
        Option.eq_none_iff_forall_ne_some.mpr fun id hid => hN (hu.fieldNamed f id hid)
      rw [unnamed w' inv', unnamed w inv]
  · rw [said]
    refine congrArg _ (List.map_congr_left fun e he => endMessage_endTime now _ ?_)
    exact late e.1 e.2 (mem_endedOf.mp he).1

/-- After calls whose times are never below a second and never decrease, a check removes
the expired objects and nothing else, and publishes one end for each of them whose parent
has not expired. -/
theorem checkSessions_exact (names : Names N P) (cs : List Call) (h : ∀ c ∈ cs, c.Uses N P)
    (late : ∀ t ∈ cs.filterMap Call.score, 1 ≤ t)
    (times : (cs.filterMap Call.score).Pairwise (· ≤ ·)) (now : ℚ) :
    Expires now (World.empty.calls cs)
      ((checkSessions now).run handler (World.empty.calls cs)).2 := by
  have absent : ∀ x s, World.empty.seenAt x ≠ some s := by simp [World.seenAt, World.empty]
  have order : Along InOrder World.empty cs :=
    along_inOrder times fun x s hs => absurd hs (absent x s)
  have ordered : Ordered (World.empty.calls cs) :=
    Ordered.calls (fun x _ _ s _ hs => absurd hs (absent x s)) order
  refine checkSessions_effect names (invariant_calls names cs h) ordered (fun x s hs => ?_) now
  obtain ⟨c, hc, hs⟩ := (calls_score hs).resolve_left (absent x s)
  exact late s (List.mem_filterMap.mpr ⟨c, hc, hs⟩)

/-- A device that is seen with an IP, then without. -/
def quietIpCalls : List Call :=
  [.seen 600 "00:11" "eth0" none "10.0.0.2" none, .seen 900 "00:11" "eth0" none .none none]

theorem checkSessions_exact_quietIp :
    Expires 1000 (World.empty.calls quietIpCalls)
      ((checkSessions 1000).run handler (World.empty.calls quietIpCalls)).2 :=
  checkSessions_exact roamingNames quietIpCalls
    (by simp [quietIpCalls, Call.Uses, Call.obj, Call.port, objOf, roamingObjs])
    (by simp [quietIpCalls, Call.score]) (by simp [quietIpCalls, Call.score]; norm_num) 1000

/-- Two VLANs that have one index of IPs. -/
def lostIndexCalls : List Call :=
  [.seen 1 "a" "b:vlan:c" none "10.0.0.2" none, .seen 2 "a:vlan:b" "c" none .none none,
    .ends 3 "a:vlan:b" "c" .none none]

/-- A device whose IP was only seen half a second after 1970. -/
def firstSecondCalls : List Call :=
  [.seen (1 / 2) "00:11" "eth0" none "10.0.0.2" none,
    .seen 900 "00:11" "eth0" none .none none]

/-- With one index for two VLANs, a check leaves an expired IP. And the end of an IP
whose score is below a second is dated with the clock. -/
theorem checkSessions_not_exact :
    ¬ Expires 1000 (World.empty.calls lostIndexCalls)
      ((checkSessions 1000).run handler (World.empty.calls lostIndexCalls)).2 ∧
    ¬ Expires 1000 (World.empty.calls firstSecondCalls)
      ((checkSessions 1000).run handler (World.empty.calls firstSecondCalls)).2 := by
  constructor
  · intro h
    have gone := (h.removed (.ip "a" "b:vlan:c" "10.0.0.2")
      ⟨1, by decide +kernel, by decide +kernel⟩).1
    revert gone
    decide +kernel
  · intro h
    obtain ⟨ended, -, member, said⟩ := h.published
    have dated : ∃ m ∈ ((checkSessions 1000).run handler
        (World.empty.calls firstSecondCalls)).2.published, m.ended = some 1000 := by
      decide +kernel
    have before : ∀ m ∈ (World.empty.calls firstSecondCalls).published, m.ended ≠ some 1000 := by
      decide +kernel
    have scores : ∀ e ∈ SortedSet.pairs (World.empty.calls firstSecondCalls).lastSeen,
        e.2 ≤ 1000 - expiryObjectAfter → endSeconds e ≠ 1000 := by
      decide +kernel
    obtain ⟨m, hm, hdate⟩ := dated
    rw [said, List.mem_append] at hm
    rcases hm with hm | hm
    · exact before m hm hdate
    · obtain ⟨⟨o, s⟩, he, rfl⟩ := List.mem_map.mp hm
      obtain ⟨hs, hexp, -⟩ := (member o s).mp he
      exact scores _ (SortedSet.mem_pairs.mpr hs) hexp (Option.some.inj hdate)

end ElanAgent.Session
