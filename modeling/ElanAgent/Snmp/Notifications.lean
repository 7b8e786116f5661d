import Mathlib.Data.List.DropRight
import Mathlib.Data.String.Basic

/-!
# The output of `snmptrapd`

`receive_traps` of `bin/snmp_notification_receiver.py` cuts the lines that `snmptrapd` writes
into notifications. It keeps the text of a notification after it has handed it over, and
looks for the end of a notification in all that it has of it.
-/

namespace ElanAgent.Snmp

/-- `marker in text`. -/
def Marks (marker text : String) : Prop := marker.toList <:+: text.toList

instance (marker text : String) : Decidable (Marks marker text) :=
  inferInstanceAs (Decidable (_ <:+: _))

/-- `line.rstrip('\n\r')`. -/
def rstrip (line : String) : String :=
  String.ofList (line.toList.rdropWhile fun c => c = '\n' || c = '\r')

def beginMarker : String := "BEGIN VARIABLEBINDINGS"

def endMarker : String := "END VARIABLEBINDINGS"

/-- `in_trap` and `trap_str`. -/
structure Reader where
  inTrap : Bool
  trapStr : String
  deriving DecidableEq

namespace Reader

/-- The line is taken if it belongs to a notification. -/
def take (r : Reader) (line : String) : Reader :=
  if r.inTrap then { r with trapStr := r.trapStr ++ line }
  else if Marks beginMarker line then ⟨true, line⟩
  else r

/-- The next line, and the text that is handed over. -/
def read (r : Reader) (line : String) : Reader × Option String :=
  let r := r.take line
  if Marks endMarker r.trapStr then ({ r with inTrap := false }, some r.trapStr) else (r, none)

/-- The lines up to the first empty one, after which the process has ended. -/
def run (r : Reader) : List String → Reader × List String
  | [] => (r, [])
  | line :: lines =>
    if line = "" then (r, [])
    else
      let (r, trapStr) := r.read (rstrip line)
      let (r, trapStrs) := r.run lines
      (r, trapStr.toList ++ trapStrs)

end Reader

/-- The texts that are handed to `parse_trap_str`, for the lines that the process writes. -/
def receiveTraps (lines : List String) : List String := ((⟨false, ""⟩ : Reader).run lines).2

/-! ## Streams of notifications -/

/-- A line of the process, with its end. -/
structure Line where
  line : String
  nonempty : line ≠ ""

def Line.text (l : Line) : String := rstrip l.line

/-- The texts of the lines, one after the other. -/
def joined (lines : List Line) : String := String.join (lines.map Line.text)

/-- A notification: the last line alone has the mark of the end. -/
structure Block where
  body : List Line
  last : Line
  begins : ∀ first, (body ++ [last]).head? = some first → Marks beginMarker first.text
  ends : Marks endMarker last.text
  only : ∀ l ∈ body, ¬Marks endMarker l.text

/-- A line that has neither mark. -/
structure Outside where
  line : Line
  begins : ¬Marks beginMarker line.text
  ends : ¬Marks endMarker line.text

inductive Item where
  | trap (block : Block)
  | outside (line : Outside)

def Item.lines : Item → List Line
  | .trap block => block.body ++ [block.last]
  | .outside line => [line.line]

/-- The text of a notification. -/
def Item.trapStr : Item → Option String
  | .trap block => some (joined (block.body ++ [block.last]))
  | .outside _ => none

def Item.isTrap : Item → Bool
  | .trap _ => true
  | .outside _ => false

/-- What the process writes. -/
def written (items : List Item) : List String := (items.flatMap Item.lines).map Line.line

/-- The lines before the last one have the mark of the end when they are joined. -/
def Block.Premature (b : Block) : Prop := Marks endMarker (joined b.body)

instance (b : Block) : Decidable b.Premature := inferInstanceAs (Decidable (Marks ..))

/-! ## Marks -/

theorem Marks.append_right {marker text : String} (h : Marks marker text) (text' : String) :
    Marks marker (text ++ text') := by
  rw [Marks, String.toList_append]
  exact h.trans (List.prefix_append ..).isInfix

theorem Marks.append_left {marker text : String} (h : Marks marker text) (text' : String) :
    Marks marker (text' ++ text) := by
  rw [Marks, String.toList_append]
  exact h.trans (List.suffix_append ..).isInfix

@[simp] theorem joined_nil : joined [] = "" := by simp [joined]

@[simp] theorem joined_cons (l : Line) (lines : List Line) :
    joined (l :: lines) = l.text ++ joined lines := by simp [joined]

theorem joined_append (lines lines' : List Line) :
    joined (lines ++ lines') = joined lines ++ joined lines' := by simp [joined]

theorem not_ends_empty : ¬Marks endMarker "" := by decide

/-! ## Reading -/

namespace Reader

variable {r : Reader}

/-- The reader after the lines, and the texts that are handed over meanwhile. -/
def reads (r : Reader) (lines : List Line) : Reader × List String := r.run (lines.map Line.line)

@[simp] theorem reads_nil (r : Reader) : r.reads [] = (r, []) := rfl

theorem reads_cons (r : Reader) (l : Line) (lines : List Line) : r.reads (l :: lines) =
    (((r.read l.text).1.reads lines).1,
      (r.read l.text).2.toList ++ ((r.read l.text).1.reads lines).2) := by
  rw [reads, List.map_cons, run, if_neg l.nonempty]
  rfl

theorem reads_append (r : Reader) (lines lines' : List Line) : r.reads (lines ++ lines') =
    (((r.reads lines).1.reads lines').1,
      (r.reads lines).2 ++ ((r.reads lines).1.reads lines').2) := by
  induction lines generalizing r with
  | nil => rfl
  | cons l lines ih => simp only [List.cons_append, reads_cons, ih, List.append_assoc]

/-- The next end of a notification is seen. -/
def Armed (r : Reader) : Prop := r.inTrap = true ∨ Marks endMarker r.trapStr

theorem armed_take (h : r.Armed) (line : String) : (r.take line).Armed := by
  unfold take
  split
  · exact .inl ‹_›
  · split
    · exact .inl rfl
    · exact h

theorem read_of_ends {line : String} (h : Marks endMarker (r.take line).trapStr) :
    r.read line = (⟨false, (r.take line).trapStr⟩, some (r.take line).trapStr) := if_pos h

theorem read_of_not {line : String} (h : ¬Marks endMarker (r.take line).trapStr) :
    r.read line = (r.take line, none) := if_neg h

theorem armed_read (h : r.Armed) (line : String) : (r.read line).1.Armed := by
  by_cases ends : Marks endMarker (r.take line).trapStr
  · rw [read_of_ends ends]
    exact .inr ends
  · rw [read_of_not ends]
    exact armed_take h line

theorem armed_reads (h : r.Armed) (lines : List Line) : (r.reads lines).1.Armed := by
  induction lines generalizing r with
  | nil => exact h
  | cons l lines ih =>
    rw [reads_cons]
    exact ih (armed_read h l.text)

/-- The reader is armed by a line, or takes it to be outside. -/
theorem take_ends (h : r.Armed) {line : String} (ends : Marks endMarker line) :
    Marks endMarker (r.take line).trapStr := by
  unfold take
  split
  · exact ends.append_left r.trapStr
  · split
    · exact ends
    · exact h.resolve_left ‹_›

/-- Within a notification, the lines are joined until its end is seen. -/
theorem reads_within {text : String} {lines : List Line}
    (h : ¬Marks endMarker (text ++ joined lines)) :
    reads ⟨true, text⟩ lines = (⟨true, text ++ joined lines⟩, []) := by
  induction lines generalizing text with
  | nil => simp
  | cons l lines ih =>
    rw [joined_cons, ← String.append_assoc] at h ⊢
    have continues : ¬Marks endMarker (text ++ l.text) := fun ends => h (ends.append_right _)
    have read : read ⟨true, text⟩ l.text = (⟨true, text ++ l.text⟩, none) := read_of_not continues
    rw [reads_cons, read]
    simp [ih h]

/-- If it is seen before the last line, a text is handed over. -/
theorem reads_early {text : String} {lines : List Line} (before : ¬Marks endMarker text)
    (h : Marks endMarker (text ++ joined lines)) :
    (reads ⟨true, text⟩ lines).1.Armed ∧ (reads ⟨true, text⟩ lines).2 ≠ [] := by
  refine ⟨armed_reads (.inl rfl) lines, ?_⟩
  induction lines generalizing text with
  | nil => simp [before] at h
  | cons l lines ih =>
    rw [joined_cons, ← String.append_assoc] at h
    rw [reads_cons]
    by_cases ends : Marks endMarker (text ++ l.text)
    · have read : read ⟨true, text⟩ l.text = (⟨false, text ++ l.text⟩, some (text ++ l.text)) :=
        read_of_ends ends
      simp [read]
    · have read : read ⟨true, text⟩ l.text = (⟨true, text ++ l.text⟩, none) := read_of_not ends
      simp [read, ih ends h]

theorem take_begins (idle : r.inTrap = false) {line : String} (begins : Marks beginMarker line) :
    r.take line = ⟨true, line⟩ := by
  rw [take, if_neg (by simp [idle]), if_pos begins]

/-- The lines before the last one, of which there is one. -/
theorem reads_body (idle : r.inTrap = false) {l : Line} {lines : List Line}
    (begins : Marks beginMarker l.text) (continues : ¬Marks endMarker l.text) :
    r.reads (l :: lines) = reads ⟨true, l.text⟩ lines := by
  have take := take_begins idle begins
  have read : r.read l.text = (⟨true, l.text⟩, none) := by
    rw [read_of_not (by rwa [take]), take]
  rw [reads_cons, read]
  rfl

/-- The last line of a notification. -/
theorem reads_last (armed : r.Armed) {l : Line} (ends : Marks endMarker l.text) :
    r.reads [l] = (⟨false, (r.take l.text).trapStr⟩, [(r.take l.text).trapStr]) := by
  rw [reads_cons, read_of_ends (take_ends armed ends)]
  rfl

/-- A notification is handed over whole, unless its end is seen before the last line. -/
theorem reads_block (idle : r.inTrap = false) (b : Block) :
    ∃ text texts, r.reads (b.body ++ [b.last]) = (⟨false, text⟩, texts) ∧
      Marks endMarker text ∧
      if b.Premature then 2 ≤ texts.length else texts = [joined (b.body ++ [b.last])] := by
  cases hbody : b.body with
  | nil =>
    have take := take_begins idle (b.begins b.last (by simp [hbody]))
    have read : r.read b.last.text = (⟨false, b.last.text⟩, some b.last.text) := by
      rw [read_of_ends (by rw [take]; exact b.ends), take]
    have whole : ¬b.Premature := by rw [Block.Premature, hbody]; exact not_ends_empty
    refine ⟨b.last.text, [b.last.text], by simp [reads_cons, read], b.ends, ?_⟩
    rw [if_neg whole]
    simp
  | cons l lines =>
    have begins : Marks beginMarker l.text := b.begins l (by simp [hbody])
    have continues : ¬Marks endMarker l.text := b.only l (by simp [hbody])
    have body : r.reads (l :: lines) = reads ⟨true, l.text⟩ lines :=
      reads_body idle begins continues
    have premature : b.Premature ↔ Marks endMarker (l.text ++ joined lines) := by
      rw [Block.Premature, hbody, joined_cons]
    rw [reads_append, body]
    by_cases early : b.Premature
    · obtain ⟨armed, handed⟩ := reads_early continues (premature.mp early)
      rw [reads_last armed b.ends]
      refine ⟨_, _, rfl, take_ends armed b.ends, ?_⟩
      have some : 0 < (reads ⟨true, l.text⟩ lines).2.length := List.length_pos_iff.mpr handed
      rw [if_pos early, List.length_append, List.length_singleton]
      omega
    · rw [reads_within (mt premature.mpr early), reads_last (.inl rfl) b.ends]
      refine ⟨_, _, rfl, take_ends (.inl rfl) b.ends, ?_⟩
      rw [if_neg early]
      simp [take, joined_append, String.append_assoc]

/-- Outside the notifications, the last text is handed over again. -/
theorem reads_outside (idle : r.inTrap = false) (o : Outside) :
    r.reads [o.line] = (r, if Marks endMarker r.trapStr then [r.trapStr] else []) := by
  have take : r.take o.line.text = r := by
    rw [take, if_neg (by simp [idle]), if_neg o.begins]
  rw [reads_cons]
  by_cases ends : Marks endMarker r.trapStr
  · have read : r.read o.line.text = (r, some r.trapStr) := by
      rw [read_of_ends (by rwa [take]), take, ← idle]
    simp [read, ends]
  · have read : r.read o.line.text = (r, none) := by
      rw [read_of_not (by rwa [take]), take]
    simp [read, ends]

end Reader

/-! ## Streams -/

/-- The texts of the notifications, in order. -/
def trapStrs (items : List Item) : List String := items.filterMap Item.trapStr

@[simp] theorem trapStrs_nil : trapStrs [] = [] := rfl

@[simp] theorem trapStrs_trap (b : Block) (items : List Item) :
    trapStrs (.trap b :: items) = joined (b.body ++ [b.last]) :: trapStrs items := rfl

@[simp] theorem trapStrs_outside (o : Outside) (items : List Item) :
    trapStrs (.outside o :: items) = trapStrs items := rfl

@[simp] theorem isTrap_trap (b : Block) : (Item.trap b).isTrap = true := rfl

@[simp] theorem isTrap_outside (o : Outside) : (Item.outside o).isTrap = false := rfl

/-- The texts that the reader hands over for the items. -/
def Reader.hands (r : Reader) (items : List Item) : List String :=
  (r.reads (items.flatMap Item.lines)).2

section Streams

variable {r : Reader} {items : List Item}

theorem hands_cons (r : Reader) (item : Item) (items : List Item) : r.hands (item :: items) =
    (r.reads item.lines).2 ++ (r.reads item.lines).1.hands items := by
  rw [Reader.hands, List.flatMap_cons, Reader.reads_append]
  rfl

theorem hands_trap (idle : r.inTrap = false) (b : Block) (items : List Item) :
    ∃ text texts, r.hands (.trap b :: items) = texts ++ (⟨false, text⟩ : Reader).hands items ∧
      Marks endMarker text ∧
      if b.Premature then 2 ≤ texts.length else texts = [joined (b.body ++ [b.last])] := by
  obtain ⟨text, texts, reads, ends, handed⟩ := Reader.reads_block idle b
  refine ⟨text, texts, ?_, ends, handed⟩
  rw [hands_cons, Item.lines, reads]

theorem hands_outside (idle : r.inTrap = false) (o : Outside) (items : List Item) :
    r.hands (.outside o :: items) =
      (if Marks endMarker r.trapStr then [r.trapStr] else []) ++ r.hands items := by
  rw [hands_cons, Item.lines, Reader.reads_outside idle]

/-- No notification is left out. -/
theorem length_trapStrs_le (idle : r.inTrap = false) (items : List Item) :
    (trapStrs items).length ≤ (r.hands items).length := by
  induction items generalizing r with
  | nil => exact Nat.zero_le _
  | cons item items ih =>
    cases item with
    | trap b =>
      obtain ⟨text, texts, hands, -, handed⟩ := hands_trap idle b items
      have later := ih (r := ⟨false, text⟩) rfl
      have some : 1 ≤ texts.length := by
        split at handed
        · omega
        · simp [handed]
      rw [hands, trapStrs_trap, List.length_append, List.length_cons]
      omega
    | outside o =>
      rw [hands_outside idle, trapStrs_outside, List.length_append]
      exact (ih idle).trans (Nat.le_add_left ..)

/-- A notification is handed over once exactly if its end is seen at its last line. -/
theorem hands_trap_iff (idle : r.inTrap = false) (b : Block) (items : List Item) :
    ∃ text, Marks endMarker text ∧ (r.hands (.trap b :: items) = trapStrs (.trap b :: items) ↔
      ¬b.Premature ∧ (⟨false, text⟩ : Reader).hands items = trapStrs items) := by
  obtain ⟨text, texts, hands, ends, handed⟩ := hands_trap idle b items
  refine ⟨text, ends, ?_⟩
  rw [hands, trapStrs_trap]
  by_cases early : b.Premature
  · rw [if_pos early] at handed
    refine iff_of_false (fun same => ?_) (fun h => h.1 early)
    have lengths := congrArg List.length same
    have later := length_trapStrs_le (r := ⟨false, text⟩) rfl items
    rw [List.length_append, List.length_cons] at lengths
    omega
  · rw [if_neg early] at handed
    rw [handed]
    simp [early]

/-- After a notification, only notifications may come. -/
theorem hands_after_iff (idle : r.inTrap = false) (ends : Marks endMarker r.trapStr) :
    r.hands items = trapStrs items ↔ ∀ item ∈ items, ∃ b, item = .trap b ∧ ¬b.Premature := by
  induction items generalizing r with
  | nil => simp [Reader.hands]
  | cons item items ih =>
    cases item with
    | trap b =>
      obtain ⟨text, ends', iff⟩ := hands_trap_iff idle b items
      rw [iff, ih rfl ends', List.forall_mem_cons]
      simp
    | outside o =>
      refine iff_of_false (fun same => ?_) (fun all => ?_)
      · have later := length_trapStrs_le idle items
        have lengths := congrArg List.length same
        rw [hands_outside idle, if_pos ends, trapStrs_outside, List.length_append,
          List.length_singleton] at lengths
        omega
      · obtain ⟨b, same, -⟩ := all _ List.mem_cons_self
        cases same

/-- What comes before the first notification is not handed over. -/
theorem hands_before_iff (idle : r.inTrap = false) (fresh : ¬Marks endMarker r.trapStr) :
    r.hands items = trapStrs items ↔ (∀ b, Item.trap b ∈ items → ¬b.Premature) ∧
      ∀ item ∈ items.dropWhile fun item => !item.isTrap, item.isTrap = true := by
  induction items with
  | nil => simp [Reader.hands]
  | cons item items ih =>
    cases item with
    | outside o =>
      rw [hands_outside idle, if_neg fresh]
      simpa using ih
    | trap b =>
      obtain ⟨text, ends, iff⟩ := hands_trap_iff idle b items
      have traps : (∀ item ∈ items, ∃ b, item = .trap b ∧ ¬b.Premature) ↔
          (∀ b, Item.trap b ∈ items → ¬b.Premature) ∧ ∀ item ∈ items, item.isTrap = true := by
        constructor
        · intro all
          refine ⟨fun b hb => ?_, fun item hitem => ?_⟩
          · obtain ⟨b', same, whole⟩ := all _ hb
            exact Item.trap.inj same ▸ whole
          · obtain ⟨b', rfl, -⟩ := all item hitem
            rfl
        · rintro ⟨whole, trap⟩ item hitem
          cases item with
          | trap b => exact ⟨b, rfl, whole b hitem⟩
          | outside o => cases trap _ hitem
      rw [iff, hands_after_iff rfl ends, traps]
      simp [and_assoc]

/-- `parse_trap_str` gets each notification once, and in order, exactly if no line comes
between two notifications or after the last one, and the end of none is seen before its last
line. -/
theorem receiveTraps_eq_iff (items : List Item) :
    receiveTraps (written items) = trapStrs items ↔
      (∀ b, Item.trap b ∈ items → ¬b.Premature) ∧
        ∀ item ∈ items.dropWhile fun item => !item.isTrap, item.isTrap = true :=
  hands_before_iff (r := ⟨false, ""⟩) rfl not_ends_empty

end Streams

/-- A notification of one line, and a line that comes after it. -/
def trapAndLine : List Item :=
  [.trap ⟨[], ⟨"BEGIN VARIABLEBINDINGS END VARIABLEBINDINGS\n", by decide⟩,
      by simp; decide +kernel, by decide +kernel, by simp⟩,
    .outside ⟨⟨"NET-SNMP version 5.9 Stopped.\n", by decide⟩, by decide +kernel, by decide +kernel⟩]

/-- The notification is handed over twice. -/
theorem receiveTraps_twice :
    receiveTraps (written trapAndLine) ≠ trapStrs trapAndLine ∧
      (receiveTraps (written trapAndLine)).length = 2 := by
  obtain ⟨b, o, items, one⟩ : ∃ b o, trapAndLine = [.trap b, .outside o] ∧ b.body = [] :=
    ⟨_, _, rfl, rfl⟩
  obtain ⟨text, texts, hands, ends, handed⟩ := hands_trap (r := ⟨false, ""⟩) rfl b [.outside o]
  have whole : ¬b.Premature := by
    rw [Block.Premature, one]
    exact not_ends_empty
  rw [if_neg whole] at handed
  rw [handed, hands_outside rfl, if_pos ends] at hands
  have twice : (receiveTraps (written trapAndLine)).length = 2 := by
    rw [items]
    exact congrArg List.length hands
  refine ⟨fun once => ?_, twice⟩
  rw [once, items] at twice
  cases twice

end ElanAgent.Snmp
