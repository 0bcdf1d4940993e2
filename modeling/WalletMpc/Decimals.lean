import Mathlib

namespace Decimals
set_option autoImplicit true

/-- The value of a nonempty run of decimal digits; leading zeros are allowed. -/
def parse (cs : List Char) : Option Nat :=
  if cs ≠ [] ∧ cs.all Char.isDigit then some (Nat.ofDigitChars 10 cs 0) else none

theorem all_isDigit_toDigits (n : Nat) : (Nat.toDigits 10 n).all Char.isDigit = true := by
  rw [List.all_eq_true]
  intro c hc
  exact Nat.isDigit_of_mem_toDigits (by decide) (by decide) hc

@[simp] theorem parse_toDigits (n : Nat) : parse (Nat.toDigits 10 n) = some n := by
  rw [parse, if_pos ⟨Nat.toDigits_ne_nil, all_isDigit_toDigits n⟩, Nat.ofDigitChars_ten_toDigits]

theorem head?_toDigits_ne {c : Char} (hc : c.isDigit = false) (n : Nat) :
    (Nat.toDigits 10 n).head? ≠ some c := by
  intro h
  have hd := Nat.isDigit_of_mem_toDigits (b := 10) (by decide) (by decide)
    (List.mem_of_head? h)
  rw [hc] at hd
  cases hd

theorem numbered_inj (pre post : String) {m n : Nat} :
    pre ++ toString m ++ post = pre ++ toString n ++ post ↔ m = n := by
  rw [String.append_left_inj, String.append_right_inj]
  exact Nat.repr_inj

theorem signed_inj (pre : String) {m n : Int} :
    pre ++ toString m = pre ++ toString n ↔ m = n := by
  rw [String.append_right_inj]
  exact Int.repr_inj

/-- The longest run of digits at the front of a text, and what follows it. -/
def read (cs : List Char) : Option (Nat × List Char) :=
  (parse (cs.takeWhile Char.isDigit)).map fun n => (n, cs.dropWhile Char.isDigit)

theorem read_append (n : Nat) {c : Char} (hc : c.isDigit = false) (cs : List Char) :
    read (Nat.toDigits 10 n ++ c :: cs) = some (n, c :: cs) := by
  have hd : ∀ d ∈ Nat.toDigits 10 n, d.isDigit = true := List.all_eq_true.1 (all_isDigit_toDigits n)
  rw [read, List.takeWhile_append_of_pos hd, List.dropWhile_append_of_pos hd,
    List.takeWhile_cons_of_neg (by rw [hc]; exact Bool.false_ne_true),
    List.dropWhile_cons_of_neg (by rw [hc]; exact Bool.false_ne_true),
    List.append_nil, parse_toDigits, Option.map_some]

end Decimals
