import ElanAgent.Library.Redis

/-!
# Keys that expire

Redis strings with a time to live. A writer that refreshes a key that is still there with the
value it already has, and sets it otherwise, leaves what setting it every time would leave.
If it tells what it sets, one who keeps the last value that was told for each key has the
last one written, whether the key has expired since or not.
-/

namespace ElanAgent.Expiring

open Redis

variable {κ α : Type} [DecidableEq κ]

/-- Keys, each with its value and the time at which it expires. -/
abbrev Keys (κ α : Type) := Hash κ (α × ℚ)

namespace Keys

/-- `GET key`. -/
def get (keys : Keys κ α) (now : ℚ) (key : κ) : Option α :=
  (keys.lookup key).bind fun (value, expiry) => if now < expiry then some value else none

/-- `SET key value EX seconds`. -/
def set (keys : Keys κ α) (now : ℚ) (key : κ) (value : α) (seconds : ℚ) : Keys κ α :=
  keys.insert key (value, now + seconds)

/-- `EXPIRE key seconds`, which does nothing to a key that is not there. -/
def expire (keys : Keys κ α) (now : ℚ) (key : κ) (seconds : ℚ) : Keys κ α :=
  match keys.get now key with
  | some value => keys.set now key value seconds
  | none => keys

/-- The keys that are there. -/
def Live (keys : Keys κ α) (now : ℚ) (key : κ) : Prop := keys.get now key ≠ none

@[simp] theorem get_set (keys : Keys κ α) (now now' : ℚ) (key key' : κ) (value : α)
    (seconds : ℚ) : (keys.set now key value seconds).get now' key' =
      if key' = key then (if now' < now + seconds then some value else none)
      else keys.get now' key' := by
  unfold get set
  rw [lookup_insert_ite]
  split <;> rfl

end Keys

variable [DecidableEq α]

/-- Refresh the key if it has the value, set it otherwise. Was it set? -/
def refresh (seconds now : ℚ) (key : κ) (value : α) (keys : Keys κ α) : Bool × Keys κ α :=
  if keys.get now key = some value then (false, keys.expire now key seconds)
  else (true, keys.set now key value seconds)

/-- Either way the key is left as if it had been set. -/
theorem refresh_snd (seconds now : ℚ) (key : κ) (value : α) (keys : Keys κ α) :
    (refresh seconds now key value keys).2 = keys.set now key value seconds := by
  unfold refresh
  split
  · rename_i here
    simp only [Keys.expire, here]
  · rfl

/-! ## Runs -/

/-- A value that is written to a key, and when. -/
structure Write (κ α : Type) where
  time : ℚ
  key : κ
  value : α

/-- The keys, and what has been told, the oldest first. -/
structure Reported (κ α : Type) where
  keys : Keys κ α
  told : List (κ × α)

/-- Write a value, and tell it if it is not there yet. -/
def Reported.write (seconds : ℚ) (r : Reported κ α) (w : Write κ α) : Reported κ α :=
  let refreshed := refresh seconds w.time w.key w.value r.keys
  ⟨refreshed.2, if refreshed.1 then r.told ++ [(w.key, w.value)] else r.told⟩

@[simp] theorem keys_write (seconds : ℚ) (r : Reported κ α) (w : Write κ α) :
    (r.write seconds w).keys = r.keys.set w.time w.key w.value seconds := refresh_snd ..

theorem told_write (seconds : ℚ) (r : Reported κ α) (w : Write κ α) :
    (r.write seconds w).told = if r.keys.get w.time w.key = some w.value then r.told
      else r.told ++ [(w.key, w.value)] := by
  by_cases here : r.keys.get w.time w.key = some w.value <;> simp [Reported.write, refresh, here]

/-- What the writes leave. -/
def written (seconds : ℚ) (writes : List (Write κ α)) : Reported κ α :=
  writes.foldl (Reported.write seconds) ⟨∅, []⟩

omit [DecidableEq α] in
/-- The last write to a key. -/
def last (writes : List (Write κ α)) (key : κ) : Option (Write κ α) :=
  (writes.filter fun w => w.key = key).getLast?

omit [DecidableEq α] in
/-- What one who keeps the last value told for each key has. -/
def heard (told : List (κ × α)) (key : κ) : Option α :=
  ((told.filter fun m => m.1 = key).getLast?).map Prod.snd

omit [DecidableEq α] in
theorem last_append (writes : List (Write κ α)) (w : Write κ α) (key : κ) :
    last (writes ++ [w]) key = if w.key = key then some w else last writes key := by
  by_cases same : w.key = key <;> simp [last, List.filter_append, same]

omit [DecidableEq α] in
theorem heard_append (told : List (κ × α)) (m : κ × α) (key : κ) :
    heard (told ++ [m]) key = if m.1 = key then some m.2 else heard told key := by
  by_cases same : m.1 = key <;> simp [heard, List.filter_append, same]

theorem written_append (seconds : ℚ) (writes : List (Write κ α)) (w : Write κ α) :
    written seconds (writes ++ [w]) = (written seconds writes).write seconds w := by
  simp [written, List.foldl_append]

/-- A key holds its last value, for its time to live. -/
theorem lookup_written (seconds : ℚ) (writes : List (Write κ α)) (key : κ) :
    (written seconds writes).keys.lookup key =
      (last writes key).map fun w => (w.value, w.time + seconds) := by
  induction writes using List.reverseRecOn with
  | nil => rfl
  | append_singleton writes w ih =>
    rw [written_append, last_append, keys_write, Keys.set, lookup_insert_ite, ih]
    by_cases same : w.key = key
    · simp [same]
    · simp [same, Ne.symm same]

theorem get_written (seconds : ℚ) (writes : List (Write κ α)) (now : ℚ) (key : κ) :
    (written seconds writes).keys.get now key =
      (last writes key).bind fun w => if now < w.time + seconds then some w.value else none := by
  rw [Keys.get, lookup_written]
  cases last writes key <;> rfl

/-- The listener has the last value of each key. -/
theorem heard_written (seconds : ℚ) (writes : List (Write κ α)) (key : κ) :
    heard (written seconds writes).told key = (last writes key).map Write.value := by
  induction writes using List.reverseRecOn with
  | nil => rfl
  | append_singleton writes w ih =>
    rw [written_append, last_append, told_write]
    split
    · rename_i here
      rw [ih]
      split
      · -- what is not told is there, so that it was the last value of the key already
        rename_i same
        subst same
        rw [get_written] at here
        obtain ⟨w', hlast, hvalue⟩ := Option.bind_eq_some_iff.mp here
        rw [hlast, Option.map_some]
        grind
      · rfl
    · rw [heard_append, ih]
      split <;> rfl

end ElanAgent.Expiring
