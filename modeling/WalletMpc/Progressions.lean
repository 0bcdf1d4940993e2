import Mathlib.Data.Nat.ModEq
import Mathlib.Order.Bounds.Basic

namespace Progressions
set_option autoImplicit true

/-- The positions at which the progression `a, a + m, a + 2m, …` is divisible by `p`. -/
def zeros (p m a : Nat) : Set Nat := {k | p ∣ a + m * k}

@[simp] theorem mem_zeros : k ∈ zeros p m a ↔ p ∣ a + m * k := Iff.rfl

/-- From one zero the others are found by steps of `p`. -/
theorem add_mem_zeros (hc : Nat.Coprime p m) (hk : k ∈ zeros p m a) :
    k + d ∈ zeros p m a ↔ p ∣ d := by
  have hsplit : a + m * (k + d) = (a + m * k) + m * d := by rw [Nat.mul_add, Nat.add_assoc]
  rw [mem_zeros, hsplit, Nat.dvd_add_right hk, hc.dvd_mul_left]

theorem next_zero (hc : Nat.Coprime p m) (hk : k ∈ zeros p m a) : k + p ∈ zeros p m a :=
  (add_mem_zeros hc hk).2 (Nat.dvd_refl p)

/-- Between a zero and the one a step later there is none. -/
theorem not_mem_zeros (hc : Nat.Coprime p m) (hk : k ∈ zeros p m a) (h : k < j)
    (h' : j < k + p) : j ∉ zeros p m a := by
  intro hj
  obtain ⟨d, rfl⟩ := Nat.exists_eq_add_of_lt h
  have hd : p ∣ d + 1 := (add_mem_zeros hc hk).1 hj
  have := Nat.le_of_dvd (Nat.succ_pos d) hd
  omega

theorem isLeast_zeros (hc : Nat.Coprime p m) (hk : k ∈ zeros p m a) (h : k < p) :
    IsLeast (zeros p m a) k := by
  refine ⟨hk, fun j hj => ?_⟩
  by_contra hlt
  exact not_mem_zeros hc hj (Nat.lt_of_not_le hlt) (by omega) hk

theorem slide_mem_zeros : k ∈ zeros p m (a + m * s) ↔ k + s ∈ zeros p m a := by
  rw [mem_zeros, mem_zeros, Nat.mul_add, Nat.add_assoc, Nat.add_comm (m * s)]

/-- Multiplying what is missing from the remainder by the inverse of the step gives a zero. -/
theorem mul_inv_mem_zeros (ha : a ≡ r [MOD p]) (hn : p ∣ r + n) (hi : m * i ≡ 1 [MOD p]) :
    n * i % p ∈ zeros p m a := by
  have hz : a + m * (n * i % p) ≡ 0 [MOD p] := calc
    a + m * (n * i % p) ≡ r + m * (n * i) [MOD p] :=
      ha.add ((Nat.ModEq.refl m).mul (Nat.mod_modEq (n * i) p))
    _ = r + n * (m * i) := by rw [Nat.mul_left_comm]
    _ ≡ r + n * 1 [MOD p] := (Nat.ModEq.refl r).add ((Nat.ModEq.refl n).mul hi)
    _ = r + n := by rw [Nat.mul_one]
    _ ≡ 0 [MOD p] := (Nat.modEq_zero_iff_dvd).2 hn
  exact (Nat.modEq_zero_iff_dvd).1 hz

end Progressions
