import Mathlib.Data.String.Defs
import Mathlib.Data.Rat.Floor

/-!
# Values the daemons exchange

MAC addresses, VLAN names, IP addresses and switch ports travel as Python scalars
that JSON encodes: strings, integers, or `None` for what is missing. `format` is
what `str.format` renders, which is how every Redis key is built; it does not
distinguish `None` from `'None'` nor `1` from `'1'`.
-/

namespace ElanAgent

/-- A Python scalar with a JSON encoding. -/
inductive Value where
  | none
  | int (n : Int)
  | str (s : String)
  deriving DecidableEq, Repr

namespace Value

instance : Coe String Value := ⟨.str⟩

/-- The text `str.format` substitutes for the value. -/
def format : Value → String
  | .none => "None"
  | .int n => toString n
  | .str s => s

/-- Python's truth value. -/
def truthy : Value → Bool
  | .none => false
  | .int n => n != 0
  | .str s => s != ""

end Value

/-- An epoch in whole microseconds, ties to even, as `utcfromtimestamp` rounds it. -/
def micros (epoch : ℚ) : ℤ :=
  let scaled := epoch * 1000000
  let rest := scaled - ⌊scaled⌋
  if rest < 1 / 2 then ⌊scaled⌋
  else if 1 / 2 < rest then ⌊scaled⌋ + 1
  else if ⌊scaled⌋ % 2 = 0 then ⌊scaled⌋ else ⌊scaled⌋ + 1

/-- `format_date`, as the whole seconds that the rendered date stands for. A
missing or zero epoch means the current time. -/
def formatDate (now : ℚ) (date : Option ℚ) : ℤ :=
  match date with
  | none => micros now / 1000000
  | some epoch => if epoch = 0 then micros now / 1000000 else micros epoch / 1000000

end ElanAgent
