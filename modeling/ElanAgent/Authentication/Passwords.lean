import ElanAgent.Authentication.Search
import ElanAgent.Library.Regex
import ElanAgent.Library.Text

/-!
# Passwords

`pwd_authenticate` writes a provider, the source that asks and a command in `Connect-Info`. The
server `authentication` takes them out of it with an expression and runs the policy, whose modules
may depend on the source as they do on the login. The password is checked with `ADpap` if the
provider of the session is an Active Directory and with `pap` if it is not, and that provider is
read again in the message of the reply.
-/

namespace ElanAgent.Authentication

open Regex Failover

/-! ## The texts -/

/-- `Connect_Info` of a request. -/
def connectInfo (id source command : String) : String :=
  "authenticator=" ++ id ++ ",source=" ++ source ++ ",command=" ++ command

/-- A blank, any number of times. -/
def blanks : Regex := optional (.longest (· = ' '))

/-- `[^, ]` -/
def plain (c : Char) : Bool := c ≠ ',' && c ≠ ' '

/-- A comma among blanks, a name, and what follows it. -/
def field (name : String) (r : Regex) : Regex :=
  .seq blanks (.seq (.one (· = ',')) (.seq blanks (.seq (literal name.toList) r)))

/-- The expression of the server. -/
def connectInfoRegex : Regex :=
  .seq (literal "authenticator=".toList) (.seq (.group "1" (.longest Char.isDigit))
    (field "source=" (.seq (.group "2" (.longest plain))
      (field "command=" (.group "3" (.longest plain))))))

/-- The expression of `pwd_authenticate`. -/
def providerRegex : Regex :=
  .seq (literal "provider=".toList) (.group "provider_id" (.longest Char.isDigit))

/-- The text of a group, which is empty if it has not matched. -/
def groupText (m : Match) (name : String) : String := String.ofList ((m.get name).getD [])

/-! ## The server -/

/-- What the modules that check the password of a request say, and the passwords that are known
for it, as messages. -/
structure Checks where
  pap : Request → Bool
  adPap : Request → Bool
  known : Request → List String

structure Reply where
  accepted : Bool
  messages : List String

/-- `Auth-Type PAP`. -/
def Checks.accepts (checks : Checks) (r : Request) : Bool :=
  if r.useNtlm then checks.adPap r else checks.pap r

/-- The server `authentication` for a request with this `Connect-Info`. A request is rejected
where the policy leaves the section, and where no `Auth-Type` is set. -/
def Modules.serve (env : Modules) (checks : Checks) (cases : List Case) (info : String) : Reply :=
  match connectInfoRegex.search info.toList with
  | none => ⟨false, []⟩
  | some m =>
    let (code, r) := env.authorize cases (groupText m "1")
    if authorizeActions code = .leave then ⟨false, []⟩
    else if groupText m "3" = "authenticate" then
      if checks.accepts r then ⟨true, ["provider=" ++ r.provider.getD ""]⟩ else ⟨false, []⟩
    else if groupText m "3" = "authorize" then
      ⟨false, ("ELAN-Auth-Provider=" ++ r.control.getD "") :: checks.known r⟩
    else ⟨false, []⟩

/-- The provider that the messages of a reply name. -/
def effectiveProvider (id : String) (messages : List String) : String :=
  match messages with
  | [] => id
  | message :: _ => ((providerRegex.search message.toList).map (groupText · "provider_id")).getD id

/-- `pwd_authenticate`, with `none` for `AuthenticationFailed`. -/
def pwdAuthenticate (server : String → Reply) (id source : String) : Option String :=
  let reply := server (connectInfo id source "authenticate")
  if reply.accepted then some (effectiveProvider id reply.messages) else none

/-! ## What the expressions read -/

theorem first_blanks {text : List Char} (h : text.head? ≠ some ' ') :
    blanks.first text = some ⟨[], text⟩ := by
  have stops : text.takeWhile (· = ' ') = [] := by
    cases text with
    | nil => rfl
    | cons c text => simpa using h
  rw [blanks, Regex.optional, first_alt, first_longest, if_pos (by simpa using stops)]
  rfl

theorem first_field (name : String) {r : Regex} {text : List Char} {m : Match}
    (begins : name.toList.head?.any (· ≠ ' ') = true) (h : r.first text = some m) :
    (field name r).first (',' :: (name.toList ++ text)) = some m := by
  have blank : (name.toList ++ text).head? ≠ some ' ' := by
    obtain ⟨c, hc, other⟩ := (Option.any_eq_true _ _).mp begins
    rw [List.head?_append, hc]
    simpa using other
  exact first_seq_of_first (first_blanks (by simp)) <|
    first_seq_of_first (m := ⟨[], name.toList ++ text⟩) rfl <|
      first_seq_of_first (first_blanks blank) (first_seq_of_first (first_literal _ _) h)

theorem toList_connectInfo (id source command : String) :
    (connectInfo id source command).toList = "authenticator=".toList ++ (id.toList ++
      ',' :: ("source=".toList ++ (source.toList ++
        ',' :: ("command=".toList ++ (command.toList ++ []))))) := by
  have second : ",source=".toList = ',' :: "source=".toList := by decide
  have third : ",command=".toList = ',' :: "command=".toList := by decide
  unfold connectInfo
  simp only [String.toList_append]
  rw [second, third]
  simp only [List.append_assoc, List.cons_append, List.append_nil]

/-- The server reads what `pwd_authenticate` has written. -/
theorem search_connectInfo {id source : String} (command : String)
    (digits : id ≠ "" ∧ ∀ c ∈ id.toList, c.isDigit)
    (plains : source ≠ "" ∧ source.toList.all plain)
    (plainc : command ≠ "" ∧ command.toList.all plain) :
    connectInfoRegex.search (connectInfo id source command).toList =
      some ⟨[("1", id.toList), ("2", source.toList), ("3", command.toList)], []⟩ := by
  have ended := first_field "command=" (by decide) <|
    first_group_longest_append "3" [] (by simpa using plainc.1)
      (List.all_eq_true.mp plainc.2) (by simp)
  have asked := first_field "source=" (by decide) <| first_seq_of_first
    (first_group_longest_append "2" _ (by simpa using plains.1)
      (List.all_eq_true.mp plains.2) (by simp [plain])) ended
  have whole := first_seq_of_first (first_literal "authenticator=".toList _) <| first_seq_of_first
    (first_group_longest_append "1" _ (by simpa using digits.1) digits.2 (by simp)) asked
  rw [toList_connectInfo, connectInfoRegex, search_of_first whole]
  simp only [Match.andThen, List.nil_append, List.cons_append]

/-- The id of a provider, which `\d+` takes whole. -/
def isNumber : Value → Bool
  | .int (.ofNat _) => true
  | _ => false

theorem toList_format {v : Value} (number : isNumber v) :
    ∃ n : ℕ, v = .int n ∧ v.format.toList = decimal n := by
  cases v with
  | int n =>
    cases n with
    | ofNat n => exact ⟨n, rfl, rfl⟩
    | negSucc n => cases number
  | none | str s => cases number

theorem digits_format {v : Value} (number : isNumber v) :
    v.format ≠ "" ∧ ∀ c ∈ v.format.toList, c.isDigit := by
  obtain ⟨n, -, text⟩ := toList_format number
  refine ⟨fun empty => ?_, fun c hc => isDigit_of_mem_decimal (text ▸ hc)⟩
  have none : decimal n = [] := by rw [← text, empty]; rfl
  rw [decimal, Nat.toString_eq_repr, Nat.toList_repr] at none
  exact Nat.toDigits_ne_nil none

theorem format_inj {v w : Value} (hv : isNumber v) (hw : isNumber w) (same : v.format = w.format) :
    v = w := by
  obtain ⟨m, rfl, hm⟩ := toList_format hv
  obtain ⟨n, rfl, hn⟩ := toList_format hw
  rw [same, hn] at hm
  rw [decimal_inj.mp hm]

/-- The provider of a session is read again in the reply, which names no other one. -/
theorem effectiveProvider_reply (id : String) {session : Option Value}
    (numbers : ∀ v ∈ session, isNumber v) :
    effectiveProvider id ["provider=" ++ (session.map Value.format).getD ""] =
      (session.map Value.format).getD id := by
  cases session with
  | none =>
    have none : providerRegex.search ("provider=" ++ "").toList = none := by decide
    simp only [effectiveProvider, Option.map_none, Option.getD_none, none]
  | some v =>
    have digits := digits_format (numbers v rfl)
    have whole := first_seq_of_first (first_literal "provider=".toList _) <|
      first_group_longest_append "provider_id" [] (by simpa using digits.1) digits.2
        (by simp)
    have text : ("provider=" ++ v.format).toList =
        "provider=".toList ++ (v.format.toList ++ []) := by
      rw [String.toList_append, List.append_nil]
    simp only [effectiveProvider, Option.map_some, Option.getD_some, text]
    rw [providerRegex, search_of_first whole]
    simp [groupText, Match.andThen, Match.get]

/-! ## The session of a group -/

/-- The provider is an Active Directory. -/
def Authentications.joined (auths : Authentications) (id : Value) : Bool :=
  (auths.find id).type = .activeDirectory

namespace Modules

variable {env : Modules} {auths : Authentications}

theorem useNtlm_ended (type : AuthType) (id : Value) (r : Request) :
    (env.ended type id r).useNtlm = r.useNtlm := by
  unfold ended ask providerUpdate
  split <;> split <;> rfl

theorem adProvider_ended (id : Value) (r : Request) :
    (env.ended (auths.find id).type id r).adProvider =
      if auths.joined id then some id.format else r.adProvider := by
  unfold ended ask providerUpdate Authentications.joined
  split <;> split <;> simp_all <;> rfl

theorem useNtlm_search (ids : List Value) (r : Request) :
    (env.search auths ids r).2.useNtlm = r.useNtlm := by
  induction ids generalizing r with
  | nil => rfl
  | cons id ids ih =>
    cases ends : env.decides auths id with
    | true => rw [search_ends ends, useNtlm_ended]
    | false =>
      rw [search_next ends, ih, tried_keeps (·.useNtlm) (by rintro u r (rfl | rfl) <;> rfl),
        useNtlm_ended]

/-- The last Active Directory that is asked. -/
theorem adProvider_search (ids : List Value) (r : Request) :
    (env.search auths ids r).2.adProvider =
      (((upTo (env.decides auths) ids).filter auths.joined).getLast?.map Value.format).or
        r.adProvider := by
  induction ids generalizing r with
  | nil => rfl
  | cons id ids ih =>
    cases ends : env.decides auths id with
    | true =>
      rw [search_ends ends, adProvider_ended]
      cases joined : auths.joined id <;> simp [upTo, ends, joined]
    | false =>
      rw [search_next ends, ih, tried_keeps (·.adProvider) (by rintro u r (rfl | rfl) <;> rfl),
        adProvider_ended]
      cases joined : auths.joined id with
      | false => simp [upTo, ends, joined]
      | true =>
        simp only [upTo, ends, joined, Bool.false_eq_true, if_false, if_true,
          List.filter_cons_of_pos, List.getLast?_cons]
        cases ((upTo (env.decides auths) ids).filter auths.joined).getLast? <;> rfl

end Modules

theorem upTo_subset {α : Type} (ends : α → Bool) (l : List α) : upTo ends l ⊆ l := by
  induction l with
  | nil => exact List.Subset.refl _
  | cons a l ih =>
    unfold upTo
    split
    · simp
    · exact List.cons_subset_cons a ih

/-- Whether `p` accepts the last element can be told from what `f` makes of the elements, if it
makes something different of each. -/
theorem getLast?_any {α β : Type} [DecidableEq β] {f : α → β} {p : α → Bool} {l : List α}
    (inj : ∀ a ∈ l, ∀ b ∈ l, f a = f b → a = b) :
    ((l.getLast?.map f).isSome && l.getLast?.map f = (l.filter p).getLast?.map f) =
      l.getLast?.any p := by
  rcases List.eq_nil_or_concat' l with rfl | ⟨l, a, rfl⟩
  · rfl
  rw [List.filter_append]
  cases accepted : p a with
  | true => simp [accepted]
  | false =>
    have other : ∀ b, (l.filter p).getLast? = some b → f b ≠ f a := by
      intro b hb same
      have mem := List.mem_filter.mp (List.mem_of_getLast? hb)
      have here : b = a := inj b (by simp [mem.1]) a (by simp) same
      simp [here, accepted] at mem
    simpa [accepted] using other

section Session

open Modules Raising

theorem provider_finish (r : Request) : (finish r).provider = r.provider := by
  unfold finish
  split <;> rfl

theorem useNtlm_finish (r : Request) : (finish r).useNtlm =
    ((r.provider.isSome && r.provider = r.adProvider) || r.useNtlm) := by
  have asks : Condition.adProvider.holds .noop r =
      (r.provider.isSome && r.provider = r.adProvider) := rfl
  unfold finish
  rw [asks]
  cases r.provider.isSome && r.provider = r.adProvider <;> rfl

/-- The password is checked as the session says. -/
theorem pwdAuthenticate_serve (env : Modules) (checks : Checks) (cases : List Case)
    {id source : String} (digits : id ≠ "" ∧ ∀ c ∈ id.toList, c.isDigit)
    (plains : source ≠ "" ∧ source.toList.all plain) :
    pwdAuthenticate (env.serve checks cases) id source =
      let (code, r) := env.authorize cases id
      if authorizeActions code ≠ .leave ∧ checks.accepts r then
        some (effectiveProvider id ["provider=" ++ r.provider.getD ""])
      else none := by
  have read := search_connectInfo "authenticate" digits plains (by decide)
  have groups (id source command : List Char) :
      groupText ⟨[("1", id), ("2", source), ("3", command)], []⟩ "1" = String.ofList id ∧
      groupText ⟨[("1", id), ("2", source), ("3", command)], []⟩ "3" = String.ofList command :=
    ⟨rfl, rfl⟩
  unfold pwdAuthenticate serve
  rw [read]
  simp only [groups, String.ofList_toList]
  by_cases leaves : authorizeActions (env.authorize cases id).1 = .leave
  · simp [leaves]
  · cases accepts : checks.accepts (env.authorize cases id).2 <;> simp [leaves]

/-- The session of a group after the search: the last provider that was asked, and whether it is
an Active Directory. -/
theorem session_tryGroup (env : Modules) {auths : Authentications} {ids : List Value}
    (requested : String) (numbers : ∀ i ∈ ids, isNumber i) :
    let session := (upTo (env.decides auths) ids).getLast?
    let r := finish (env.tryGroup auths ids (.fresh requested)).2
    r.provider = session.map Value.format ∧ r.useNtlm = session.any auths.joined := by
  have mem : ∀ i ∈ upTo (env.decides auths) ids, isNumber i :=
    fun i hi => numbers i (upTo_subset _ _ hi)
  constructor
  · rw [provider_finish, tryGroup_keeps rfl (·.provider) (fun _ => rfl), provider_search]
    exact Option.or_none
  · rw [useNtlm_finish, tryGroup_keeps rfl (·.provider) (fun _ => rfl),
      tryGroup_keeps rfl (·.adProvider) (fun _ => rfl),
      tryGroup_keeps rfl (·.useNtlm) (fun _ => rfl), useNtlm_search, provider_search,
      adProvider_search]
    simp only [Request.fresh, Option.or_none, Bool.or_false]
    exact getLast?_any fun a ha b hb => format_inj (mem a ha) (mem b hb)

variable {env : Environment} {auths : Authentications} {p p' : Provider} {out : Generated}

theorem isNumber_of_reach {id i : Value} (number : isNumber id)
    (numbers : ∀ auth ∈ auths.values, ∀ m ∈ auth.members.getD [], isNumber m)
    (reach : Relation.ReflTransGen (Traversal.Child auths.members) id i) : isNumber i := by
  cases reach with
  | refl => exact number
  | @tail j _ _ child =>
    unfold Traversal.Child Authentications.members at child
    cases htype : (auths.find j).type with
    | group =>
      rw [htype] at child
      exact numbers _ (find_mem_values (by simp [htype])) i child
    | ldap | activeDirectory | external => simp [htype] at child

/-- A password for a group is accepted if the policy does not refuse and the provider that was
asked last accepts it, which is by `ADpap` for an Active Directory. The id of that provider is
what `pwd_authenticate` returns; it is that of the group where nobody was asked. -/
theorem pwdAuthenticate_group (h : exec (generate env auths) p = (.ok out, p')) {id : Value}
    (reads : auths.Reads id) (group : (auths.find id).type = .group) (number : isNumber id)
    (numbers : ∀ auth ∈ auths.values, ∀ m ∈ auth.members.getD [], isNumber m)
    (modules : Modules) (checks : Checks) {source : String}
    (plains : source ≠ "" ∧ source.toList.all plain) :
    ∃ text, groupInnerCase auths id = .ok text ∧
      let ids := text.filterMap Piece.tried
      let session := (upTo (modules.decides auths) ids).getLast?
      let told := modules.told allFailedModule ((session.map Value.format).getD id.format)
      let r := (modules.authorize out.cases id.format).2
      let accepted := if session.any auths.joined then checks.adPap r else checks.pap r
      pwdAuthenticate (modules.serve checks out.cases) id.format source =
        if authorizeActions (modules.groupCode auths ids told) ≠ .leave ∧ accepted then
          some (session.getD id).format
        else none := by
  obtain ⟨text, unfolded, reach, inner, whole, left⟩ := select_group h reads group modules
  refine ⟨text, unfolded, ?_⟩
  intro ids session told r accepted
  have numeric : ∀ i ∈ ids, isNumber i := fun i hi => isNumber_of_reach number numbers (reach i hi)
  have code : inner.code = modules.groupCode auths ids told := left.trans (tryGroup_code ..)
  have ran : modules.authorize out.cases id.format = _ :=
    runSection_policyText (r := .fresh id.format) whole
  rw [pwdAuthenticate_serve modules checks out.cases (digits_format number) plains]
  by_cases leaves : authorizeActions inner.code = .leave
  · rw [if_pos leaves] at ran
    rw [ran, ← code]
    simp [leaves]
  rw [if_neg leaves] at ran
  obtain ⟨provider, joined⟩ := session_tryGroup modules id.format numeric
  have final : r = finish (modules.tryGroup auths ids (.fresh id.format)).2 := congrArg Prod.snd ran
  rw [← final] at provider joined
  have accepts : checks.accepts r = accepted := by
    unfold Checks.accepts
    rw [joined]
  have named : effectiveProvider id.format ["provider=" ++ r.provider.getD ""] =
      (session.getD id).format := by
    rw [provider, effectiveProvider_reply]
    · exact Option.getD_map _ _ _
    · exact fun v hv => numeric v (upTo_subset _ _ (List.mem_of_getLast? hv))
  have goesOn : authorizeActions (modules.authorize out.cases id.format).1 ≠ .leave := by
    rw [ran]
    split
    · simp [authorizeActions]
    · exact leaves
  show (if authorizeActions (modules.authorize out.cases id.format).1 ≠ .leave ∧
    checks.accepts r then some (effectiveProvider id.format ["provider=" ++ r.provider.getD ""])
    else none) = _
  rw [accepts, named, ← code]
  simp [goesOn, leaves]

theorem pwdAuthenticate_group_fallback : ∃ out p',
    exec (generate refusing fallback) (unjoined fallback) = (.ok out, p') ∧
    pwdAuthenticate (unreachable.serve ⟨fun _ => true, fun _ => false, fun _ => []⟩ out.cases) "2"
      "captive-portal-web" = some "9" := by
  have ran : exec (generate refusing fallback) (unjoined fallback) = (.ok _, _) := rfl
  have reads : fallback.Reads (.int 2) := by
    show ∀ auth ∈ fallback.values, auth.id.format = "2" → auth.id = .int 2
    decide +kernel
  have plains : "captive-portal-web" ≠ "" ∧ "captive-portal-web".toList.all plain := by decide
  obtain ⟨text, unfolded, accepted⟩ :=
    pwdAuthenticate_group ran reads rfl rfl (by decide +kernel) unreachable
      ⟨fun _ => true, fun _ => false, fun _ => []⟩ plains
  obtain rfl := Except.ok.inj (unfolded.symm.trans rfl)
  exact ⟨_, _, ran, accepted.trans (by decide +kernel)⟩

end Session

end ElanAgent.Authentication
