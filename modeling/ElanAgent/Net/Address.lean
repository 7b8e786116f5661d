import ElanAgent.Library.Text
import Mathlib.Data.Fin.Basic

/-!
# IP addresses and their texts

The daemons get addresses as texts and tell the two families apart by a colon. An IPv4
address is its four octets, written in decimal between dots, so that the octets can be
read back from the text. Of an IPv6 address only the text is kept, which has a colon
however it is abbreviated.
-/

namespace ElanAgent

namespace Net

/-- The four octets of an IPv4 address. -/
structure IPv4 where
  first : Fin 256
  second : Fin 256
  third : Fin 256
  fourth : Fin 256
  deriving DecidableEq

/-- The dotted text of an address. -/
def IPv4.text (a : IPv4) : String :=
  toString a.first.val ++ "." ++ toString a.second.val ++ "." ++ toString a.third.val ++ "." ++
    toString a.fourth.val

/-- The text of an IPv6 address. -/
structure IPv6 where
  text : String
  colon : ':' ∈ text.toList
  deriving DecidableEq

/-- An address of either family. -/
inductive Address where
  | ip (a : IPv4)
  | ip6 (a : IPv6)
  deriving DecidableEq

inductive Family where
  | ip
  | ip6
  deriving DecidableEq

namespace Address

def text : Address → String
  | .ip a => a.text
  | .ip6 a => a.text

def family : Address → Family
  | .ip _ => .ip
  | .ip6 _ => .ip6

end Address

theorem IPv4.toList_text (a : IPv4) : a.text.toList =
    decimal a.first ++ '.' :: (decimal a.second ++ '.' :: (decimal a.third ++ '.' ::
      decimal a.fourth)) := by
  simp [IPv4.text, decimal]

theorem IPv4.colon_not_mem (a : IPv4) : ':' ∉ a.text.toList := by
  have digits (n : Nat) : ':' ∉ decimal n := not_mem_decimal (by decide)
  simp [toList_text, digits]

/-- A text is that of `a` when its four numbers are the octets of `a`. -/
theorem IPv4.toList_text_eq {a : IPv4} {xs ys zs rest : List Char} (hx : '.' ∉ xs)
    (hy : '.' ∉ ys) (hz : '.' ∉ zs) :
    a.text.toList = xs ++ '.' :: (ys ++ '.' :: (zs ++ '.' :: rest)) ↔
      decimal a.first = xs ∧ decimal a.second = ys ∧ decimal a.third = zs ∧
        decimal a.fourth = rest := by
  rw [toList_text, split_at (not_mem_decimal (by decide)) hx,
    split_at (not_mem_decimal (by decide)) hy, split_at (not_mem_decimal (by decide)) hz]

theorem IPv4.text_injective : Function.Injective IPv4.text := by
  intro a b same
  have lists : a.text.toList = b.text.toList := by rw [same]
  rw [b.toList_text, IPv4.toList_text_eq (not_mem_decimal (by decide)) (not_mem_decimal (by decide))
    (not_mem_decimal (by decide))] at lists
  simp only [decimal_inj, Fin.val_inj] at lists
  obtain ⟨h₁, h₂, h₃, h₄⟩ := lists
  cases a
  cases b
  simp_all

/-- A colon tells the families apart. -/
theorem Address.colon_mem_text (a : Address) : ':' ∈ a.text.toList ↔ a.family = .ip6 := by
  cases a with
  | ip a => simp [text, family, a.colon_not_mem]
  | ip6 a => simp [text, family, a.colon]

theorem Address.text_injective : Function.Injective Address.text := by
  intro a b same
  have hfamily : a.family = .ip6 ↔ b.family = .ip6 := by
    rw [← colon_mem_text, ← colon_mem_text, same]
  cases a with
  | ip a =>
    cases b with
    | ip b => exact congrArg _ (IPv4.text_injective same)
    | ip6 b => simp [family] at hfamily
  | ip6 a =>
    cases b with
    | ip b => simp [family] at hfamily
    | ip6 b =>
      obtain ⟨text, _⟩ := a
      obtain ⟨text', _⟩ := b
      cases (show text = text' from same)
      rfl

end Net

end ElanAgent
