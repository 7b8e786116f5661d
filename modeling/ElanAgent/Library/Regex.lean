import Mathlib.Data.List.TakeWhile

/-!
# Regular expressions that backtrack

`Regex.ways` lists the ways in which an expression matches the beginning of a text, in the
order in which a backtracking matcher tries them. The match is the first of them, with its
groups in the order in which they are opened.

An expression that `Decides` has one way at most, so that nothing is ever tried again.
-/

namespace ElanAgent

inductive Regex where
  /-- `[…]` -/
  | one (accepts : Char → Bool)
  /-- the empty expression -/
  | empty
  /-- `$`, which is also before a newline at the end -/
  | atEnd
  /-- `[…]+` -/
  | longest (accepts : Char → Bool)
  /-- `[…]+?` -/
  | shortest (accepts : Char → Bool)
  | seq (first second : Regex)
  /-- `first|second` -/
  | alt (first second : Regex)
  | group (name : String) (inner : Regex)

namespace Regex

/-- `(…)?` -/
def optional (r : Regex) : Regex := alt r empty

/-- A part that is matched as it stands. -/
def literal (part : List Char) : Regex := part.foldr (fun c rest => seq (one (· = c)) rest) empty

/-- The groups that have matched, and what is left of the text. -/
structure Match where
  groups : List (String × List Char)
  rest : List Char
  deriving DecidableEq

/-- Another match after the first one. -/
def Match.andThen (m m' : Match) : Match := ⟨m.groups ++ m'.groups, m'.rest⟩

/-- The match of a group, which has taken what is gone from the text. -/
def Match.named (name : String) (text : List Char) (m : Match) : Match :=
  ⟨(name, text.take (text.length - m.rest.length)) :: m.groups, m.rest⟩

@[simp] theorem rest_named (name : String) (text : List Char) (m : Match) :
    (m.named name text).rest = m.rest := rfl

/-- `m.group(name)` -/
def Match.get (m : Match) (name : String) : Option (List Char) :=
  (m.groups.find? fun g => g.1 = name).map Prod.snd

/-- What is left after one character, after two, and so on. -/
def runs (accepts : Char → Bool) : List Char → List (List Char)
  | [] => []
  | c :: text => if accepts c then text :: runs accepts text else []

/-- The ways to match a beginning of a text, the first one first. -/
@[grind =]
def ways : Regex → List Char → List Match
  | one accepts, text =>
    match text with
    | [] => []
    | c :: rest => if accepts c then [⟨[], rest⟩] else []
  | empty, text => [⟨[], text⟩]
  | atEnd, text => if text = [] ∨ text = ['\n'] then [⟨[], text⟩] else []
  | longest accepts, text => (runs accepts text).reverse.map fun rest => ⟨[], rest⟩
  | shortest accepts, text => (runs accepts text).map fun rest => ⟨[], rest⟩
  | seq first second, text =>
    (first.ways text).flatMap fun m => (second.ways m.rest).map m.andThen
  | alt first second, text => first.ways text ++ second.ways text
  | group name inner, text => (inner.ways text).map (Match.named name text)

/-- `re.match` -/
def first (r : Regex) (text : List Char) : Option Match := (r.ways text).head?

/-- `re.search` -/
def search (r : Regex) : List Char → Option Match
  | [] => r.first []
  | c :: text => (r.first (c :: text)).or (search r text)

variable {a b r : Regex} {text : List Char}

/-- A group holds what stands before the rest. -/
theorem named_append (name : String) (taken rest : List Char)
    (groups : List (String × List Char)) :
    Match.named name (taken ++ rest) ⟨groups, rest⟩ = ⟨(name, taken) :: groups, rest⟩ := by
  simp [Match.named]

/-- A match without groups adds nothing before another one. -/
@[simp] theorem map_andThen_nil (rest : List Char) (m : Option Match) :
    m.map (Match.andThen ⟨[], rest⟩) = m := by
  cases m <;> rfl

/-! ## The first way -/

theorem first_seq (a b : Regex) (text : List Char) : (seq a b).first text =
    (a.ways text).findSome? fun m => (b.first m.rest).map m.andThen := by
  simp [first, ways, List.head?_flatMap]

/-- Where the first way to match `a` can be continued, it is never tried again. -/
theorem first_seq_of_first {m m' : Match} (ha : a.first text = some m)
    (hb : b.first m.rest = some m') : (seq a b).first text = some (m.andThen m') := by
  obtain ⟨more, ways⟩ := List.head?_eq_some_iff.mp ha
  rw [first_seq, ways, List.findSome?_cons, hb, Option.map_some]

/-- A match at the beginning is the one that a search finds. -/
theorem search_of_first {m : Match} (h : r.first text = some m) : r.search text = some m := by
  cases text <;> simp [search, h]

theorem first_alt (a b : Regex) (text : List Char) :
    (alt a b).first text = (a.first text).or (b.first text) := by
  simp [first, ways]

theorem first_group (name : String) (r : Regex) (text : List Char) :
    (group name r).first text = (r.first text).map (Match.named name text) := by
  simp [first, ways]

/-- The longest run ends at the first character that is not accepted. -/
theorem first_longest (accepts : Char → Bool) (text : List Char) :
    (longest accepts).first text =
      if text.takeWhile accepts = [] then none else some ⟨[], text.dropWhile accepts⟩ := by
  rw [first, ways, List.head?_map, List.head?_reverse]
  induction text with
  | nil => rfl
  | cons c text ih =>
    by_cases accepted : accepts c
    · rw [runs, if_pos accepted, List.takeWhile_cons_of_pos accepted,
        List.dropWhile_cons_of_pos accepted, if_neg (by simp), List.getLast?_cons]
      cases htext : text.takeWhile accepts with
      | nil =>
        have none : (runs accepts text).getLast? = none := by simpa [htext] using ih
        have stops : text.dropWhile accepts = text := by
          simpa [htext] using List.takeWhile_append_dropWhile (p := accepts) (l := text)
        simp [none, stops]
      | cons d more =>
        rw [htext, if_neg (by simp)] at ih
        obtain ⟨last, hlast, same⟩ := Option.map_eq_some_iff.mp ih
        rw [hlast]
        exact congrArg some same
    · simp [runs, accepted]

theorem first_group_longest (name : String) (accepts : Char → Bool) (text : List Char) :
    (group name (longest accepts)).first text =
      if text.takeWhile accepts = [] then none
      else some ⟨[(name, text.takeWhile accepts)], text.dropWhile accepts⟩ := by
  rw [first_group, first_longest]
  split
  · rfl
  · have taken := named_append name (text.takeWhile accepts) (text.dropWhile accepts) []
    rw [List.takeWhile_append_dropWhile] at taken
    exact congrArg some taken

/-- A group takes a run whole if what follows the run is not accepted. -/
theorem first_group_longest_append (name : String) {accepts : Char → Bool} {run : List Char}
    (rest : List Char) (nonempty : run ≠ []) (all : ∀ c ∈ run, accepts c)
    (ends : ∀ c ∈ rest.head?, accepts c = false) :
    (group name (longest accepts)).first (run ++ rest) = some ⟨[(name, run)], rest⟩ := by
  have stops : rest.takeWhile accepts = [] ∧ rest.dropWhile accepts = rest := by
    cases rest with
    | nil => exact ⟨rfl, rfl⟩
    | cons c rest => simp [ends c rfl]
  rw [first_group_longest, List.takeWhile_append_of_pos all, List.dropWhile_append_of_pos all,
    stops.1, stops.2, List.append_nil, if_neg nonempty]

/-! ## Expressions with one way at most -/

/-- The expression matches as `f` says, and in no other way. -/
def Decides (r : Regex) (f : List Char → Option Match) : Prop :=
  ∀ text, r.ways text = (f text).toList

theorem Decides.first {f : List Char → Option Match} (h : Decides r f) (text : List Char) :
    r.first text = f text := by
  rw [Regex.first, h text]
  cases f text <;> rfl

theorem decides_one (accepts : Char → Bool) : Decides (one accepts) fun text =>
    match text with
    | [] => none
    | c :: rest => if accepts c then some ⟨[], rest⟩ else none := by
  intro text
  cases text with
  | nil => rfl
  | cons c rest =>
    simp only [ways]
    split <;> rfl

theorem decides_empty : Decides empty fun text => some ⟨[], text⟩ := fun _ => rfl

theorem Decides.seq {f g : List Char → Option Match} (ha : Decides a f) (hb : Decides b g) :
    Decides (Regex.seq a b) fun text => (f text).bind fun m => (g m.rest).map m.andThen := by
  intro text
  rw [ways, ha text]
  cases hf : f text with
  | none => simp [hf]
  | some m => cases hg : g m.rest <;> simp [hf, hg, hb m.rest]

theorem Decides.group {f : List Char → Option Match} (h : Decides r f) (name : String) :
    Decides (Regex.group name r) fun text => (f text).map (Match.named name text) := by
  intro text
  rw [ways, h text]
  cases hf : f text <;> simp [hf]

/-- Where an optional part matches, it cannot be left out if what follows it does not match
there. -/
theorem Decides.optional_seq {f g : List Char → Option Match} (ha : Decides a f)
    (hb : Decides b g) (skips : ∀ text, (f text).isSome → g text = none) :
    Decides (Regex.seq (optional a) b) fun text =>
      match f text with
      | some m => (g m.rest).map m.andThen
      | none => g text := by
  intro text
  rw [ways, optional, ways, ways, ha text, List.flatMap_append, List.flatMap_singleton,
    hb text]
  cases hf : f text with
  | none => cases hg : g text <;> simp [hf, hg, Match.andThen]
  | some m =>
    have absent := skips text (by simp [hf])
    cases hg : g m.rest <;> simp [hf, hg, absent, hb m.rest]

theorem decides_literal (part : List Char) : Decides (literal part) fun text =>
    if part <+: text then some ⟨[], text.drop part.length⟩ else none := by
  induction part with
  | nil => exact fun text => by simp [literal, ways]
  | cons c part ih =>
    intro text
    have step := (decides_one (· = c)).seq ih text
    rw [literal, List.foldr_cons]
    refine step.trans (congrArg Option.toList ?_)
    cases text with
    | nil => simp
    | cons d text =>
      by_cases same : d = c
      · subst same
        by_cases more : part <+: text
        · simp [more, Match.andThen]
        · simp [more]
      · simp [same, Ne.symm same]

theorem first_literal (part rest : List Char) :
    (literal part).first (part ++ rest) = some ⟨[], rest⟩ := by
  simp [(decides_literal part).first]

end Regex

end ElanAgent
