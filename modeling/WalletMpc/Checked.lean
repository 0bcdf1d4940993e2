import Mathlib.Algebra.Order.Ring.Nat

namespace Checked
set_option autoImplicit true

/-! Machine arithmetic on unsigned words of `w` bits; `none` is a result that leaves the word. -/

def add (w a b : Nat) : Option Nat := if a + b < 2 ^ w then some (a + b) else none

def sub (a b : Nat) : Option Nat := if b ≤ a then some (a - b) else none

def mul (w a b : Nat) : Option Nat := if a * b < 2 ^ w then some (a * b) else none

/-- The conversion `a as uw`, which keeps the low bits. -/
def cast (w a : Nat) : Nat := a % 2 ^ w

@[simp] theorem add_eq (h : a + b < 2 ^ w) : add w a b = some (a + b) := if_pos h

@[simp] theorem sub_eq (h : b ≤ a) : sub a b = some (a - b) := if_pos h

@[simp] theorem mul_eq (h : a * b < 2 ^ w) : mul w a b = some (a * b) := if_pos h

@[simp] theorem cast_eq (h : a < 2 ^ w) : cast w a = a := Nat.mod_eq_of_lt h

/-- The bits of a product are at most the bits of its factors together. -/
theorem mul_eq_of_widths (ha : a < 2 ^ u) (hb : b < 2 ^ v) (h : u + v ≤ w) :
    mul w a b = some (a * b) := by
  apply mul_eq
  calc a * b < 2 ^ u * 2 ^ v := Nat.mul_lt_mul'' ha hb
    _ = 2 ^ (u + v) := (Nat.pow_add 2 u v).symm
    _ ≤ 2 ^ w := Nat.pow_le_pow_right Nat.two_pos h

theorem add_eq_some (h : add w a b = some c) : c = a + b ∧ a + b < 2 ^ w := by
  unfold add at h
  split at h
  · next hlt => exact ⟨(Option.some.inj h).symm, hlt⟩
  · cases h

end Checked
