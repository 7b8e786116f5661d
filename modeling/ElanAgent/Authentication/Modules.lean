import ElanAgent.Authentication.Provider

/-!
# The modules that the policy names

FreeRADIUS needs every module that its policy names, once. `Generates` says what the two
texts have of each entry. A group names the module of an entry by its type alone, whereas the
module of a domain is defined for every entry whose domain the agent is in at its turn.
-/

namespace ElanAgent.Authentication

open Raising Relation Traversal

variable {env : Environment} {auths : Authentications} {auth : Auth} {items js : List Auth}
variable {p p' : Provider} {one out : Generated}

/-- An authentication that a group contains, directly or not. -/
def Authentications.Contains (auths : Authentications) (group id : Value) : Prop :=
  ReflTransGen (Child auths.members) group id

/-- What the texts have of the entries `items`, where those of `js` found the agent in their
domain. -/
structure Generates (auths : Authentications) (items js : List Auth) (out : Generated) :
    Prop where
  modules : ∀ name, (out.modules.map Module.name).count name =
    items.countP (fun a => a.type = .ldap ∧ ldapModule a.id = name) +
      if name = "ADldap" then js.length else 0
  pieces : ∀ piece, piece ∈ out.cases.flatMap Case.pieces ↔
    (∃ a ∈ items, a.type = .ldap ∧ (piece = .provider .ldap a.id ∨ piece = .failed)) ∨
    (∃ a ∈ js, piece = .provider .activeDirectory a.id ∨ piece = .failed) ∨
    ∃ a ∈ items, a.type = .group ∧ (piece = .allFailedInGroup ∨
      ∃ id, auths.Contains a.id id ∧ piece ∈ auths.block id)

theorem generates_nil : Generates auths [] [] .empty where
  modules := by simp [Generated.empty]
  pieces := by simp [Generated.empty]

theorem Generates.append {items' js' : List Auth} {more : Generated}
    (h : Generates auths items js one) (h' : Generates auths items' js' more) :
    Generates auths (items ++ items') (js ++ js') (one.append more) where
  modules name := by
    simp only [Generated.append, List.map_append, List.count_append, h.modules, h'.modules,
      List.countP_append, List.length_append]
    split <;> omega
  pieces piece := by
    simp only [Generated.append, List.flatMap_append, List.mem_append, h.pieces, h'.pieces,
      or_and_right, exists_or]
    exact (or_or_or_comm ..).trans (or_congr_right (or_or_or_comm ..))

theorem exec_renderAd {module : Module} (h : exec renderAd p = (.ok module, p')) :
    module.name = "ADldap" ∧ p = p' := by
  unfold renderAd at h
  rw [exec_get_bind] at h
  split at h
  · cases h
  · split at h
    · cases h
    · obtain ⟨rfl, rfl⟩ := exec_pure_eq_ok.mp h
      exact ⟨rfl, rfl⟩

/-- The loop over the domains, one part after the other. -/
theorem Ad.exec_joinedEntries_append {items' js' : List Auth} {ad ad' ad'' : Ad}
    (h : exec (joinedEntries env items) ad = (.ok js, ad'))
    (h' : exec (joinedEntries env items') ad' = (.ok js', ad'')) :
    exec (joinedEntries env (items ++ items')) ad = (.ok (js ++ js'), ad'') := by
  induction items generalizing js ad with
  | nil =>
    obtain ⟨rfl, rfl⟩ := exec_pure_eq_ok.mp h
    exact h'
  | cons auth items ih =>
    simp only [List.cons_append, joinedEntries] at h ⊢
    by_cases isAd : auth.type = .activeDirectory
    · simp only [isAd, if_true, exec_bind_eq_ok] at h ⊢
      obtain ⟨joined, between, ran, h⟩ := h
      refine ⟨joined, between, ran, ?_⟩
      cases joined with
      | true =>
        rw [if_pos rfl, exec_map] at h ⊢
        obtain ⟨same, rfl⟩ := Prod.mk.inj h
        cases hrest : (exec (joinedEntries env items) between).1 with
        | error e => simp [hrest, Except.map] at same
        | ok js =>
          rw [hrest] at same
          obtain rfl := Except.ok.inj same
          rw [ih (Prod.ext hrest rfl)]
          rfl
      | false => exact ih h
    · rw [if_neg isAd] at h ⊢
      exact ih h

/-- The body of the loop, beside the same entry in the loop over the domains. -/
theorem generates_configure (h : exec (configure env auths auth) p = (.ok one, p')) :
    ∃ js, exec (Ad.joinedEntries env [auth]) p.ad = (.ok js, p'.ad) ∧
      Generates auths [auth] js one := by
  unfold configure at h
  cases htype : auth.type with
  | ldap =>
    simp only [htype, exec_bind_eq_ok] at h
    obtain ⟨module, q, rendered, h⟩ := h
    obtain ⟨rfl, rfl⟩ : module = .ldap auth ∧ p = q := by
      unfold renderLdap at rendered
      split at rendered <;> simp_all
    obtain ⟨rfl, rfl⟩ := exec_pure_eq_ok.mp h
    refine ⟨[], by simp [Ad.joinedEntries, htype], ⟨fun name => ?_, fun piece => ?_⟩⟩
    · simp [htype, Module.name, List.count_singleton, List.countP_singleton]
    · simp [htype]
  | activeDirectory =>
    simp only [htype, exec_bind_eq_ok, onAd, exec_zoom] at h
    obtain ⟨joined, q, inDomain, h⟩ := h
    obtain ⟨result, rfl⟩ := Prod.mk.inj inDomain
    have ran : exec (Ad.inDomain env auth) p.ad =
        (.ok joined, (exec (Ad.inDomain env auth) p.ad).2) := by
      rw [← result]
    cases joined with
    | true =>
      simp only [if_true, exec_bind_eq_ok] at h
      obtain ⟨module, q, rendered, h⟩ := h
      obtain ⟨name, rfl⟩ := exec_renderAd rendered
      obtain ⟨rfl, rfl⟩ := exec_pure_eq_ok.mp h
      refine ⟨[auth], ?_, ⟨fun other => ?_, fun piece => ?_⟩⟩
      · simp only [Ad.joinedEntries, htype, if_true, exec_bind_ok ran]
        rfl
      · by_cases same : other = "ADldap"
        · simp [htype, name, same]
        · simp [htype, name, same, Ne.symm same]
      · simp [htype]
    | false =>
      simp only [Bool.false_eq_true, if_false, exec_modify_bind] at h
      obtain ⟨rfl, rfl⟩ := exec_pure_eq_ok.mp h
      refine ⟨[], ?_, ⟨fun other => ?_, fun piece => ?_⟩⟩
      · simp only [Ad.joinedEntries, htype, if_true, exec_bind_ok ran]
        rfl
      · simp [htype, Generated.empty]
      · simp [htype, Generated.empty]
  | group =>
    simp only [htype, exec_bind_eq_ok] at h
    obtain ⟨text, q, unfolded, h⟩ := h
    obtain ⟨ok, rfl⟩ : groupInnerCase auths auth.id = .ok text ∧ p = q := by
      unfold unfoldGroup at unfolded
      cases hcase : groupInnerCase auths auth.id <;> simp_all
    obtain ⟨rfl, rfl⟩ := exec_pure_eq_ok.mp h
    refine ⟨[], by simp [Ad.joinedEntries, htype], ⟨fun name => ?_, fun piece => ?_⟩⟩
    · simp [htype]
    · simp [htype, mem_groupInnerCase ok, Authentications.Contains, or_comm]
  | external =>
    simp only [htype] at h
    obtain ⟨rfl, rfl⟩ := exec_pure_eq_ok.mp h
    refine ⟨[], by simp [Ad.joinedEntries, htype], ⟨fun name => ?_, fun piece => ?_⟩⟩
    · simp [htype, Generated.empty]
    · simp [htype, Generated.empty]

theorem generates_configureAll (h : exec (configureAll env auths items) p = (.ok out, p')) :
    ∃ js, exec (Ad.joinedEntries env items) p.ad = (.ok js, p'.ad) ∧
      Generates auths items js out := by
  induction items generalizing p out with
  | nil =>
    obtain ⟨rfl, rfl⟩ := exec_pure_eq_ok.mp h
    exact ⟨[], rfl, generates_nil⟩
  | cons auth items ih =>
    simp only [configureAll, exec_bind_eq_ok] at h
    obtain ⟨one, q, first, more, q', rest, h⟩ := h
    obtain ⟨rfl, rfl⟩ := exec_pure_eq_ok.mp h
    obtain ⟨js, ran, texts⟩ := generates_configure first
    obtain ⟨js', ran', texts'⟩ := ih rest
    exact ⟨js ++ js', Ad.exec_joinedEntries_append ran ran', texts.append texts'⟩

/-- Leaving the domain afterwards changes no text. -/
theorem generates_generate (h : exec (generate env auths) p = (.ok out, p')) :
    ∃ js, (exec (Ad.joinedEntries env auths.values) p.ad).1 = .ok js ∧
      Generates auths auths.values js out := by
  simp only [generate, exec_bind_eq_ok] at h
  obtain ⟨all, q, configured, _, _, _, h⟩ := h
  obtain ⟨rfl, -⟩ := exec_pure_eq_ok.mp h
  obtain ⟨js, ran, texts⟩ := generates_configureAll configured
  exact ⟨js, by rw [ran], texts⟩

/-! ## Defined once -/

/-- Every module that the policy names is defined exactly once. -/
def Generated.DefinedOnce (out : Generated) : Prop :=
  ∀ name ∈ out.named, (out.moduleFile.map Module.name).count name = 1

instance (out : Generated) : Decidable out.DefinedOnce :=
  inferInstanceAs (Decidable (∀ name ∈ out.named, _))

/-- An Active Directory entry is in a group. -/
def Authentications.GroupsAd (auths : Authentications) : Prop :=
  ∃ group ∈ auths.values, group.type = .group ∧
    ∃ id, auths.Contains group.id id ∧ (auths.find id).type = .activeDirectory

/-- At most one entry finds the agent in its domain, and one does if an Active Directory entry
is in a group; different LDAP entries have ids of different texts. -/
structure Sound (auths : Authentications) (js : List Auth) : Prop where
  atMostOne : js.length ≤ 1
  grouped : auths.GroupsAd → js ≠ []
  distinct : ∀ a ∈ auths.values, ∀ b ∈ auths.values, a.type = .ldap → b.type = .ldap →
    a.id.format = b.id.format → a = b

theorem ldapModule_inj {id id' : Value} :
    ldapModule id = ldapModule id' ↔ id.format = id'.format := by
  simp [ldapModule]

theorem ldapModule_ne (id : Value) {s : String} (other : s.toList.head? ≠ some 'l') :
    ldapModule id ≠ s := by
  rintro rfl
  simp [ldapModule, String.toList_append] at other

/-- An element that is there once is the only one of its kind. -/
theorem countP_eq_one {α : Type} [DecidableEq α] {l : List α} (nodup : l.Nodup) {P : α → Bool}
    {a : α} (ha : a ∈ l) (hP : P a) : l.countP P = 1 ↔ ∀ b ∈ l, P b → b = a := by
  constructor
  · intro one b hb hPb
    rw [List.countP_eq_length_filter, List.length_eq_one_iff] at one
    obtain ⟨c, single⟩ := one
    have mem : ∀ x ∈ l, P x → x = c := fun x hx hPx => by
      simpa [single] using List.mem_filter.mpr ⟨hx, hPx⟩
    rw [mem b hb hPb, mem a ha hP]
  · intro only
    have same : l.countP P = l.count a := by
      refine List.countP_congr fun b hb => ?_
      rw [beq_iff_eq]
      exact ⟨only b hb, fun h => h ▸ hP⟩
    rw [same, List.count_eq_one_of_mem nodup ha]

theorem nodup_values (auths : Authentications) : auths.values.Nodup := by
  have nodup := auths.entries.nodup
  refine List.Nodup.of_map Auth.id ?_
  have ids : auths.values.map Auth.id = auths.entries.items.map Prod.fst := by
    rw [Authentications.values, List.map_map]
    refine List.map_congr_left fun e he => auths.keyed e.1 e.2 (Dict.mem_items.mp he)
  rwa [ids]

section Count

variable (texts : Generates auths auths.values js out)
include texts

/-- How often a module is defined: once if it is always there, otherwise as often as there are
entries for it. -/
theorem Generates.count (name : String) : (out.moduleFile.map Module.name).count name =
    (staticModules.map Module.name).count name +
      (auths.values.countP (fun a => a.type = .ldap ∧ ldapModule a.id = name) +
        if name = "ADldap" then js.length else 0) := by
  rw [Generated.moduleFile, List.map_append, List.count_append, texts.modules]

theorem Generates.count_static {name : String} (static : name ∈ staticModules.map Module.name) :
    (out.moduleFile.map Module.name).count name = 1 := by
  have once : ∀ name ∈ staticModules.map Module.name,
      (staticModules.map Module.name).count name = 1 ∧ name.toList.head? ≠ some 'l' ∧
        name ≠ "ADldap" := by decide +kernel
  obtain ⟨one, notLdap, notAd⟩ := once name static
  have none : auths.values.countP (fun a => a.type = .ldap ∧ ldapModule a.id = name) = 0 := by
    rw [List.countP_eq_zero]
    rintro a - h
    exact ldapModule_ne a.id notLdap (of_decide_eq_true h).2
  rw [texts.count, one, none, if_neg notAd]

theorem Generates.count_adLdap :
    (out.moduleFile.map Module.name).count "ADldap" = js.length := by
  have none : auths.values.countP (fun a => a.type = .ldap ∧ ldapModule a.id = "ADldap") = 0 := by
    rw [List.countP_eq_zero]
    rintro a - h
    exact ldapModule_ne a.id (by decide +kernel) (of_decide_eq_true h).2
  have absent : (staticModules.map Module.name).count "ADldap" = 0 := by decide +kernel
  rw [texts.count, none, absent, if_pos rfl, Nat.zero_add, Nat.zero_add]

theorem Generates.count_ldap {a : Auth} (ha : a ∈ auths.values) (ldap : a.type = .ldap) :
    (out.moduleFile.map Module.name).count (ldapModule a.id) = 1 ↔
      ∀ b ∈ auths.values, b.type = .ldap → a.id.format = b.id.format → b = a := by
  have absent : (staticModules.map Module.name).count (ldapModule a.id) = 0 := by
    have heads : ∀ name ∈ staticModules.map Module.name, name.toList.head? ≠ some 'l' := by
      decide +kernel
    rw [List.count_eq_zero]
    exact fun h => ldapModule_ne a.id (heads _ h) rfl
  have notAd : ldapModule a.id ≠ "ADldap" := ldapModule_ne a.id (by decide +kernel)
  rw [texts.count, absent, if_neg notAd, Nat.zero_add, Nat.add_zero,
    countP_eq_one (nodup_values auths) ha (by simp [ldap])]
  simp only [decide_eq_true_eq, ldapModule_inj, and_imp]
  exact forall₂_congr fun b _ => imp_congr_right fun _ => by rw [eq_comm]

end Count

theorem mem_block {id : Value} {piece : Piece} : piece ∈ auths.block id ↔
    (auths.find id).type ≠ .group ∧
      (piece = .provider (auths.find id).type id ∨ piece = .failedInGroup) := by
  unfold Authentications.block
  cases (auths.find id).type <;> simp

theorem find_mem_values {id : Value} (declared : (auths.find id).type ≠ .external) :
    auths.find id ∈ auths.values := by
  rw [Authentications.mem_values, Authentications.find_id]
  unfold Authentications.find at declared ⊢
  cases h : auths.entries.get id with
  | none => simp [h, Auth.bare] at declared
  | some auth => rfl

theorem named_iff {name : String} : name ∈ out.named ↔
    name ∈ defaultCase.map Piece.module ∨
      ∃ piece ∈ out.cases.flatMap Case.pieces, piece.module = name := by
  rw [Generated.named, List.map_append, List.mem_append, List.mem_map, or_comm]

/-- The two texts of a configuration fit exactly if it is sound. -/
theorem Generates.definedOnce_iff (texts : Generates auths auths.values js out) :
    out.DefinedOnce ↔ Sound auths js := by
  have static {name : String} (h : name ∈ staticModules.map Module.name) :
      (out.moduleFile.map Module.name).count name = 1 := texts.count_static h
  have named {piece : Piece} (h : piece ∈ out.cases.flatMap Case.pieces) :
      piece.module ∈ out.named := named_iff.mpr (.inr ⟨piece, h, rfl⟩)
  constructor
  · intro once
    have adLdap {piece : Piece} (h : piece ∈ out.cases.flatMap Case.pieces)
        (isAd : piece.module = "ADldap") : js.length = 1 := by
      rw [← texts.count_adLdap, ← isAd]
      exact once _ (named h)
    refine ⟨?_, ?_, ?_⟩
    · cases hjs : js with
      | nil => simp
      | cons a js' =>
        have mem : .provider .activeDirectory a.id ∈ out.cases.flatMap Case.pieces :=
          (texts.pieces _).mpr (.inr (.inl ⟨a, by simp [hjs], .inl rfl⟩))
        rw [← hjs, adLdap mem rfl]
    · rintro ⟨group, hgroup, isGroup, id, contains, isAd⟩
      have mem : .provider .activeDirectory id ∈ out.cases.flatMap Case.pieces := by
        refine (texts.pieces _).mpr (.inr (.inr ⟨group, hgroup, isGroup, .inr ⟨id, contains, ?_⟩⟩))
        exact mem_block.mpr ⟨by simp [isAd], .inl (by rw [isAd])⟩
      have one := adLdap mem rfl
      rintro rfl
      simp at one
    · intro a ha b hb ldap ldap' same
      have mem : .provider .ldap a.id ∈ out.cases.flatMap Case.pieces :=
        (texts.pieces _).mpr (.inl ⟨a, ha, ldap, .inl rfl⟩)
      exact ((texts.count_ldap ha ldap).mp (once _ (named mem)) b hb ldap' same).symm
  · intro sound name hname
    have adLdap (present : js ≠ []) : (out.moduleFile.map Module.name).count "ADldap" = 1 := by
      have := List.length_pos_of_ne_nil present
      have := sound.atMostOne
      rw [texts.count_adLdap]
      omega
    have ldap {a : Auth} (ha : a ∈ auths.values) (isLdap : a.type = .ldap) :
        (out.moduleFile.map Module.name).count (ldapModule a.id) = 1 :=
      (texts.count_ldap ha isLdap).mpr fun b hb isLdap' same =>
        (sound.distinct a ha b hb isLdap isLdap' same).symm
    rcases named_iff.mp hname with default | ⟨piece, hpiece, rfl⟩
    · have always : ∀ name ∈ defaultCase.map Piece.module,
          name ∈ staticModules.map Module.name := by decide +kernel
      exact static (always name default)
    · rcases (texts.pieces piece).mp hpiece with
        ⟨a, ha, isLdap, rfl | rfl⟩ | ⟨a, ha, rfl | rfl⟩ |
          ⟨group, hgroup, isGroup, rfl | ⟨id, contains, block⟩⟩
      · exact ldap ha isLdap
      · exact static (by decide +kernel)
      · exact adLdap (List.ne_nil_of_mem ha)
      · exact static (by decide +kernel)
      · exact static (by decide +kernel)
      · obtain ⟨notGroup, rfl | rfl⟩ := mem_block.mp block
        · cases htype : (auths.find id).type with
          | ldap =>
            have declared : auths.find id ∈ auths.values := find_mem_values (by simp [htype])
            have once := ldap declared htype
            rwa [Authentications.find_id] at once
          | activeDirectory =>
            exact adLdap (sound.grouped ⟨group, hgroup, isGroup, id, contains, htype⟩)
          | group => exact absurd htype notGroup
          | external =>
            have external : "external-auth" ∈ staticModules.map Module.name := by decide +kernel
            exact static external
        · exact static (by decide +kernel)

/-- Whatever the configuration and whatever becomes of the joins, the modules that the policy
names are defined exactly once if and only if at most one entry finds the agent in its domain,
one does if a group has an Active Directory entry in it, and LDAP entries have ids that read
differently. -/
theorem generate_definedOnce_iff (h : exec (generate env auths) p = (.ok out, p')) :
    ∃ js, (exec (Ad.joinedEntries env auths.values) p.ad).1 = .ok js ∧
      (out.DefinedOnce ↔ Sound auths js) := by
  obtain ⟨js, ran, texts⟩ := generates_generate h
  exact ⟨js, ran, texts.definedOnce_iff⟩

/-- An Active Directory entry, and a group that has it in it. -/
def groupedAd : Authentications :=
  .ofConf [
    { Auth.bare (.int 1) .activeDirectory with
      domain := some "corp.local", adminLogin := some "admin", adminPwd := some "secret" },
    { Auth.bare (.int 2) .group with members := some [.int 1] }]

/-- Two Active Directory entries of one domain. -/
def twiceAd : Authentications :=
  .ofConf [
    { Auth.bare (.int 1) .activeDirectory with
      domain := some "corp.local", adminLogin := some "admin", adminPwd := some "secret" },
    { Auth.bare (.int 2) .activeDirectory with domain := some "CORP.LOCAL" }]

/-- A provider that has not been configured, on an agent that is in no domain. -/
def unjoined (auths : Authentications) : Provider :=
  ⟨some auths, [], ⟨none, []⟩, none, none, .empty⟩

/-- Nobody can join, and every file can be written. -/
def refusing : Environment := ⟨fun _ => .refused "Failed to join domain", fun _ => true⟩

/-- Whoever joins is told about the domain. -/
def joining : Environment :=
  ⟨fun _ => .joined ⟨none, some "dc.corp.local", some "389", some "dc=CORP,dc=LOCAL",
    some "CORP.LOCAL"⟩, fun _ => true⟩

theorem generate_definedOnce_iff_groupedAd : ∃ out p' js,
    exec (generate refusing groupedAd) (unjoined groupedAd) = (.ok out, p') ∧
      (exec (Ad.joinedEntries refusing groupedAd.values) (unjoined groupedAd).ad).1 = .ok js ∧
      (out.DefinedOnce ↔ Sound groupedAd js) := by
  have ran : exec (generate refusing groupedAd) (unjoined groupedAd) = (.ok _, _) := rfl
  obtain ⟨js, joined, iff⟩ := generate_definedOnce_iff ran
  exact ⟨_, _, js, ran, joined, iff⟩

theorem exists_of_any {α : Type} {x : Act α} {P : α → Bool}
    (h : (exec x p).1.toOption.any P) : ∃ a p', exec x p = (.ok a, p') ∧ P a := by
  generalize exec x p = r at h ⊢
  obtain ⟨e | a, p'⟩ := r
  · cases h
  · exact ⟨a, p', rfl, h⟩

/-- The join fails, and the group calls a module that is not defined; the second entry needs
no join, and the module is defined twice. -/
theorem not_definedOnce :
    (∃ out p', exec (generate refusing groupedAd) (unjoined groupedAd) = (.ok out, p') ∧
      "ADldap" ∈ out.named ∧ (out.moduleFile.map Module.name).count "ADldap" = 0) ∧
    ∃ out p', exec (generate joining twiceAd) (unjoined twiceAd) = (.ok out, p') ∧
      "ADldap" ∈ out.named ∧ (out.moduleFile.map Module.name).count "ADldap" = 2 := by
  refine ⟨⟨_, _, rfl, by decide +kernel, by decide +kernel⟩, ?_⟩
  have both : (exec (generate joining twiceAd) (unjoined twiceAd)).1.toOption.any fun out =>
      "ADldap" ∈ out.named ∧ (out.moduleFile.map Module.name).count "ADldap" = 2 := by
    decide +kernel
  obtain ⟨out, p', ran, twice⟩ := exists_of_any both
  exact ⟨out, p', ran, of_decide_eq_true twice⟩

/-! ## The files of a call -/

/-- The certificates are written to files of their own. -/
theorem keeps_writeServerCas {I : Provider → Prop}
    (frame : ∀ p serverCas, I p → I { p with serverCas }) (env : Environment)
    (items : List Auth) : Keeps (writeServerCas env items) I := by
  induction items with
  | nil => exact keeps_pure _
  | cons auth items ih =>
    unfold writeServerCas
    split
    · exact ih
    · rename_i ca _
      refine keeps_ite (Keeps.then ?_ fun _ => ih) ih
      exact keeps_ite (fun p h => frame p _ h) (keeps_throw _)

/-- The certificate in the file of a name: that of the last provider which has the file. -/
def serverCaOf : List Auth → String → Option Value
  | [], _ => none
  | auth :: auths, name => (serverCaOf auths name).or
      (match auth.serverCa with
        | some ca => if ca.truthy ∧ auth.id.format = name then some ca else none
        | none => none)

theorem write_eq_ok {file : File} {put : Provider → Provider} {u : Unit}
    (h : exec (write env file put) p = (.ok u, p')) : put p = p' := by
  unfold write at h
  split at h
  · exact (Prod.mk.inj h).2
  · cases h

theorem get_serverCas {items : List Auth} (h : exec (writeServerCas env items) p = (.ok (), p'))
    (name : String) :
    p'.serverCas.get name = (serverCaOf items name).or (p.serverCas.get name) := by
  induction items generalizing p with
  | nil =>
    obtain ⟨-, rfl⟩ := exec_pure_eq_ok.mp h
    rfl
  | cons auth items ih =>
    unfold writeServerCas at h
    cases has : auth.serverCa with
    | none =>
      simp only [has] at h
      simp [serverCaOf, has, ih h]
    | some ca =>
      simp only [has] at h
      split at h
      · rename_i truthy
        rw [exec_bind_eq_ok] at h
        obtain ⟨_, q, written, h⟩ := h
        obtain rfl := write_eq_ok written
        rw [ih h, Dict.get_set]
        by_cases same : auth.id.format = name
        · simp [serverCaOf, has, truthy, same]
        · simp [serverCaOf, has, same, Ne.symm same]
      · rename_i truthy
        simp [serverCaOf, has, truthy, ih h]

/-- A call that returns leaves the two texts of its configuration in the files, and the
certificates in theirs. -/
theorem applyConf_files (h : exec (applyConf env) p = (.ok (), p'))
    (configured : p.authentications = some auths) :
    ∃ out q, exec (generate env auths) p = (.ok out, q) ∧
      p'.moduleFile = some out.moduleFile ∧ p'.policyFile = some out.cases ∧
      ∀ name ca, serverCaOf auths.values name = some ca → p'.serverCas.get name = some ca := by
  unfold applyConf at h
  rw [exec_get_bind, configured] at h
  simp only [exec_bind_eq_ok] at h
  obtain ⟨out, q, generated, _, q₁, modules, _, q₂, policy, _, q₃, cas, h⟩ := h
  obtain rfl := write_eq_ok modules
  obtain rfl := write_eq_ok policy
  have kept := keeps_writeServerCas
    (I := fun p => (p.moduleFile, p.policyFile) = (some out.moduleFile, some out.cases))
    (fun _ _ h => h) env auths.values
    { q with moduleFile := some out.moduleFile, policyFile := some out.cases } rfl
  rw [cas] at kept
  obtain ⟨-, rfl⟩ := Prod.mk.inj h
  refine ⟨out, q, generated, congrArg Prod.fst kept, congrArg Prod.snd kept, ?_⟩
  intro name ca last
  show q₃.serverCas.get name = some ca
  rw [get_serverCas cas, last]
  rfl

end ElanAgent.Authentication
