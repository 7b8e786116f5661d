import Mathlib.Data.List.Basic
import Mathlib.Data.String.Basic

/-!
# Topics of MQTT

The levels of a topic stand between slashes. A filter is a topic in which a level may be
`+`, for any one level, and the last one `#`, for what is left of the topic, if anything.
A filter without these is a topic, and matches itself only.
-/

namespace ElanAgent.Mqtt

def levels (topic : String) : List (List Char) := topic.toList.splitOn '/'

/-- The levels of a filter match those of a topic. -/
def matchLevels : List (List Char) → List (List Char) → Bool
  | [], [] => true
  | [], _ :: _ => false
  | f :: fs, [] => f = ['#'] && fs.isEmpty
  | f :: fs, t :: ts =>
    (f = ['#'] && fs.isEmpty) || ((f = ['+'] || f = t) && matchLevels fs ts)

/-- No wildcard matches the first level of a topic of the broker itself. -/
def matchTopic (filter topic : String) : Bool :=
  matchLevels (levels filter) (levels topic) &&
    (topic.toList.head? != some '$' || filter.toList.head? ∉ [some '+', some '#'])

/-- The text has no wildcard. -/
def Concrete (topic : String) : Prop := '+' ∉ topic.toList ∧ '#' ∉ topic.toList

instance (topic : String) : Decidable (Concrete topic) := inferInstanceAs (Decidable (_ ∧ _))

theorem concrete_append {s t : String} : Concrete (s ++ t) ↔ Concrete s ∧ Concrete t := by
  simp only [Concrete, String.toList_append, List.mem_append]
  tauto

/-! ## Levels -/

theorem levels_inj {s t : String} : levels s = levels t ↔ s = t := by
  refine ⟨fun same => ?_, fun same => by rw [same]⟩
  have text := congrArg (List.intercalate ['/']) same
  exact String.toList_inj.mp (by simpa [levels] using text)

theorem mem_of_mem_splitOn {α : Type} [DecidableEq α] {sep c : α} {text level : List α}
    (hlevel : level ∈ text.splitOn sep) (hc : c ∈ level) : c ∈ text := by
  induction text generalizing level with
  | nil =>
    obtain rfl : level = [] := by simpa using hlevel
    cases hc
  | cons x text ih =>
    rw [List.splitOn_cons_eq_if_modifyHead] at hlevel
    obtain ⟨first, rest, split⟩ := List.exists_cons_of_ne_nil (List.splitOn_ne_nil sep text)
    split_ifs at hlevel with atSep
    · rcases List.mem_cons.mp hlevel with rfl | hlevel
      · cases hc
      · exact List.mem_cons_of_mem x (ih hlevel hc)
    · rw [split] at ih hlevel
      rcases List.mem_cons.mp hlevel with rfl | hlevel
      · rcases List.mem_cons.mp hc with rfl | hc
        · exact List.mem_cons_self
        · exact List.mem_cons_of_mem x (ih List.mem_cons_self hc)
      · exact List.mem_cons_of_mem x (ih (List.mem_cons_of_mem _ hlevel) hc)

theorem ne_wildcard {topic : String} (concrete : Concrete topic) {level : List Char}
    (hlevel : level ∈ levels topic) : level ≠ ['+'] ∧ level ≠ ['#'] := by
  constructor
  · rintro rfl
    exact concrete.1 (mem_of_mem_splitOn hlevel List.mem_cons_self)
  · rintro rfl
    exact concrete.2 (mem_of_mem_splitOn hlevel List.mem_cons_self)

/-! ## Filters -/

theorem matchLevels_concrete {fs : List (List Char)}
    (concrete : ∀ f ∈ fs, f ≠ ['+'] ∧ f ≠ ['#']) (ts : List (List Char)) :
    matchLevels fs ts ↔ fs = ts := by
  induction fs generalizing ts with
  | nil => cases ts <;> simp [matchLevels]
  | cons f fs ih =>
    obtain ⟨plus, hash⟩ := concrete f List.mem_cons_self
    have ih := ih fun g hg => concrete g (List.mem_cons_of_mem f hg)
    cases ts with
    | nil => simp [matchLevels, hash]
    | cons t ts => simp [matchLevels, plus, hash, ih]

theorem head_concrete {topic : String} (concrete : Concrete topic) :
    topic.toList.head? ∉ [some '+', some '#'] := by
  intro wildcard
  simp only [List.mem_cons, List.not_mem_nil, or_false] at wildcard
  rcases wildcard with plus | hash
  · exact concrete.1 (List.mem_of_head? plus)
  · exact concrete.2 (List.mem_of_head? hash)

/-- A filter without wildcards matches itself only. -/
theorem matchTopic_concrete {filter : String} (concrete : Concrete filter) {topic : String} :
    matchTopic filter topic ↔ filter = topic := by
  have levels := matchLevels_concrete (fun _ => ne_wildcard concrete) (levels topic)
  have head := head_concrete concrete
  simp only [matchTopic, Bool.and_eq_true, levels, levels_inj, head, not_false_eq_true,
    decide_true, Bool.or_true, and_true]

theorem matchLevels_append {fs ts : List (List Char)} (h : matchLevels fs ts)
    (ls : List (List Char)) : matchLevels (ls ++ fs) (ls ++ ts) := by
  induction ls with
  | nil => exact h
  | cons l ls ih => simp [matchLevels, ih]

theorem levels_append (start rest : String) :
    levels (start ++ "/" ++ rest) = levels start ++ levels rest := by
  simp [levels, List.splitOn_append_cons_self]

/-- `start/#` matches every topic below `start`. -/
theorem matchTopic_below {start : String} (concrete : Concrete start) (topic : String) :
    matchTopic (start ++ "/#") (start ++ "/" ++ topic) := by
  have levels : matchLevels (levels (start ++ "/#")) (levels (start ++ "/" ++ topic)) := by
    rw [show start ++ "/#" = start ++ "/" ++ "#" by rw [String.append_assoc]; rfl,
      levels_append, levels_append]
    refine matchLevels_append ?_ _
    obtain ⟨first, rest, split⟩ := List.exists_cons_of_ne_nil (List.splitOn_ne_nil '/' topic.toList)
    rw [Mqtt.levels, Mqtt.levels, split]
    rfl
  have head : (start ++ "/#").toList.head? ∉ [some '+', some '#'] := by
    have first := head_concrete concrete
    cases text : start.toList with
    | nil => simp [text]
    | cons c rest => simpa [text] using first
  simp only [matchTopic, levels, head, not_false_eq_true, decide_true, Bool.or_true, Bool.and_true]

end ElanAgent.Mqtt
