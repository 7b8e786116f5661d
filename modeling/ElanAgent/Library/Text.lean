import Mathlib.Data.List.Basic
import Mathlib.Data.String.Basic

/-!
# Fields of a text

A text made of fields between separators determines its fields if they have no separator
in them, and decimal numbers are such fields for every separator that is not a digit.
-/

namespace ElanAgent

/-- What stands before the first separator, and what stands after it, are determined. -/
theorem split_at {α : Type} {sep : α} {xs xs' ys ys' : List α} (hx : sep ∉ xs)
    (hx' : sep ∉ xs') : xs ++ sep :: ys = xs' ++ sep :: ys' ↔ xs = xs' ∧ ys = ys' := by
  refine ⟨fun same => ?_, fun ⟨hxs, hys⟩ => by rw [hxs, hys]⟩
  induction xs generalizing xs' with
  | nil =>
    cases xs' with
    | nil => simpa using same
    | cons x' xs' => grind
  | cons x xs ih =>
    cases xs' with
    | nil => grind
    | cons x' xs' =>
      simp only [List.cons_append, List.cons.injEq] at same
      obtain ⟨rfl, same⟩ := same
      obtain ⟨rfl, hys⟩ := ih (fun h => hx (List.mem_cons_of_mem x h))
        (fun h => hx' (List.mem_cons_of_mem x h)) same
      exact ⟨rfl, hys⟩

/-- Texts that differ in a character are different, whatever comes after it. -/
theorem text_ne {α : Type} {c c' : α} {start text text' rest rest' : List α}
    (h : text = start ++ c :: rest) (h' : text' = start ++ c' :: rest') (ne : c ≠ c') :
    text ≠ text' := by
  rintro rfl
  rw [h] at h'
  exact ne (List.cons.inj (List.append_cancel_left h')).1

theorem append_ne {c c' : Char} {start rest rest' : List Char} {s s' : String}
    (h : s.toList = start ++ c :: rest) (h' : s'.toList = start ++ c' :: rest') (ne : c ≠ c')
    (t t' : String) : s ++ t ≠ s' ++ t' := by
  have split : (s ++ t).toList = start ++ c :: (rest ++ t.toList) := by
    rw [String.toList_append, h, List.append_assoc, List.cons_append]
  have split' : (s' ++ t').toList = start ++ c' :: (rest' ++ t'.toList) := by
    rw [String.toList_append, h', List.append_assoc, List.cons_append]
  exact fun same => text_ne split split' ne (congrArg String.toList same)

/-- `str(n)`. -/
def decimal (n : Nat) : List Char := (toString n).toList

theorem isDigit_of_mem_decimal {n : Nat} {c : Char} (hc : c ∈ decimal n) : c.isDigit := by
  rw [decimal, Nat.toString_eq_repr, Nat.toList_repr] at hc
  exact Nat.isDigit_of_mem_toDigits (by decide) (by decide) hc

theorem decimal_inj {m n : Nat} : decimal m = decimal n ↔ m = n := by
  refine ⟨fun same => ?_, fun same => by rw [same]⟩
  simp only [decimal, Nat.toString_eq_repr, Nat.toList_repr] at same
  rw [← Nat.ofDigitChars_ten_toDigits (n := m), same, Nat.ofDigitChars_ten_toDigits]

theorem not_mem_decimal {n : Nat} {c : Char} (hc : c.isDigit = false) : c ∉ decimal n :=
  fun h => by simp [isDigit_of_mem_decimal h] at hc

end ElanAgent
