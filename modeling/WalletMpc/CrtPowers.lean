import Mathlib.FieldTheory.Finite.Basic
import Mathlib.NumberTheory.Basic

namespace CrtPowers
set_option autoImplicit true

/-- The exponent `e` sends every unit modulo `n` to one. -/
def Kills (n : ℤ) (e : ℕ) : Prop := ∀ x : ℤ, IsCoprime x n → x ^ e ≡ 1 [ZMOD n]

theorem kills_totient (n : ℕ) : Kills n n.totient := by
  intro x hx
  obtain ⟨y, k, hxy⟩ := hx
  have hinv : (x : ZMod n) * y = 1 := by
    have := congrArg (fun z : ℤ => (z : ZMod n)) hxy
    push_cast at this
    rwa [ZMod.natCast_self, mul_zero, add_zero, mul_comm] at this
  rw [← ZMod.intCast_eq_intCast_iff, Int.cast_pow, Int.cast_one,
    ← Units.val_mkOfMulEqOne hinv, ← Units.val_pow_eq_pow_val, ZMod.pow_totient, Units.val_one]

theorem kills_prime {p : ℕ} (hp : p.Prime) : Kills p (p - 1) :=
  fun _ hx => Int.ModEq.pow_card_sub_one_eq_one hp hx

theorem Kills.of_dvd (h : Kills n e) (hd : e ∣ e') : Kills n e' := by
  intro x hx
  obtain ⟨k, rfl⟩ := hd
  rw [pow_mul]
  have := (h x hx).pow k
  rwa [one_pow] at this

theorem modEq_mul (hc : IsCoprime m n) (hm : a ≡ b [ZMOD m]) (hn : a ≡ b [ZMOD n]) :
    a ≡ b [ZMOD m * n] :=
  (Int.modEq_and_modEq_iff_modEq_mul (Int.isCoprime_iff_gcd_eq_one.1 hc)).1 ⟨hm, hn⟩

theorem Kills.mul (hc : IsCoprime m n) (hm : Kills m e) (hn : Kills n e) : Kills (m * n) e := by
  intro x hx
  obtain ⟨hxm, hxn⟩ := IsCoprime.mul_right_iff.1 hx
  exact modEq_mul hc (hm x hxm) (hn x hxn)

/-- What is one modulo `n` has an `n`-th power that is one modulo `n * n`. -/
theorem pow_modEq_pow {n : ℕ} (h : a ≡ b [ZMOD n]) : a ^ n ≡ b ^ n [ZMOD n * n] := by
  have hd : (n : ℤ) ∣ b - a := h.dvd
  have := dvd_sub_pow_of_dvd_sub hd 1
  rw [pow_one, pow_succ, pow_one] at this
  exact Int.modEq_iff_dvd.2 this

theorem Kills.square {n : ℕ} (h : Kills n e) : Kills (n * n) (e * n) := by
  intro x hx
  have := pow_modEq_pow (h x hx.of_mul_right_left)
  rwa [← pow_mul, one_pow] at this

/-- An exponent may be reduced by one that kills the units. -/
theorem Kills.pow_mod (h : Kills n e) (hx : IsCoprime x n) (k : ℕ) :
    x ^ (k % e) ≡ x ^ k [ZMOD n] := by
  calc x ^ (k % e) = x ^ (k % e) * 1 := (mul_one _).symm
    _ ≡ x ^ (k % e) * (x ^ e) ^ (k / e) [ZMOD n] := by
      have := ((h x hx).pow (k / e)).symm
      rw [one_pow] at this
      exact this.mul_left _
    _ = x ^ k := by rw [← pow_mul, ← pow_add, Nat.mod_add_div]

/-- Modulo a prime the reduced exponent is wrong just where it turns a power of zero into one. -/
theorem pow_mod_prime_iff {p : ℕ} (hp : p.Prime) (x : ℤ) (k : ℕ) :
    x ^ (k % (p - 1)) ≡ x ^ k [ZMOD p] ↔ ¬ (0 < k ∧ (p : ℤ) ∣ x ∧ p - 1 ∣ k) := by
  have hprime := Nat.prime_iff_prime_int.1 hp
  by_cases hx : (p : ℤ) ∣ x
  · have hzero : ∀ {j}, 0 < j → x ^ j ≡ 0 [ZMOD p] := fun hj =>
      Int.modEq_zero_iff_dvd.2 (hx.trans (dvd_pow_self x hj.ne'))
    rcases Nat.eq_zero_or_pos k with rfl | hk
    · rw [Nat.zero_mod]
      exact iff_of_true (Int.ModEq.refl _) fun h => absurd h.1 (Nat.lt_irrefl 0)
    · rcases Nat.eq_zero_or_pos (k % (p - 1)) with hj | hj
      · rw [hj, pow_zero]
        refine iff_of_false (fun h => ?_) fun h => h ⟨hk, hx, Nat.dvd_of_mod_eq_zero hj⟩
        exact hprime.not_dvd_one (Int.modEq_zero_iff_dvd.1 (h.trans (hzero hk)))
      · refine iff_of_true ((hzero hj).trans (hzero hk).symm) fun h => ?_
        exact hj.ne' (Nat.mod_eq_zero_of_dvd h.2.2)
  · have hc : IsCoprime x p := ((Prime.coprime_iff_not_dvd hprime).2 hx).symm
    exact iff_of_true ((kills_prime hp).pow_mod hc k) fun h => hx h.2.1

theorem eq_of_modEq (h : a ≡ b [ZMOD n]) (ha : 0 ≤ a) (han : a < n) (hb : 0 ≤ b) (hbn : b < n) :
    a = b := by
  rw [← Int.emod_eq_of_lt ha han, ← Int.emod_eq_of_lt hb hbn]
  exact h

/-- The number below `n1 * n2` with the residues `r1` and `r2`, for `beta` inverse to `n1`. -/
def combine (n1 n2 beta r1 r2 : ℤ) : ℤ := (r2 - r1) * beta % n2 * n1 + r1

theorem combine_modEq_left : combine n1 n2 beta r1 r2 ≡ r1 [ZMOD n1] := by
  apply Int.modEq_iff_dvd.2
  refine ⟨-((r2 - r1) * beta % n2), ?_⟩
  rw [combine]
  ring

theorem combine_modEq_right (hb : n1 * beta ≡ 1 [ZMOD n2]) :
    combine n1 n2 beta r1 r2 ≡ r2 [ZMOD n2] := by
  calc (r2 - r1) * beta % n2 * n1 + r1
      ≡ (r2 - r1) * beta * n1 + r1 [ZMOD n2] := ((Int.mod_modEq _ _).mul_right _).add_right _
    _ = (r2 - r1) * (n1 * beta) + r1 := by ring
    _ ≡ (r2 - r1) * 1 + r1 [ZMOD n2] := (hb.mul_left _).add_right _
    _ = r2 := by ring

theorem combine_nonneg (hn1 : 0 < n1) (hn2 : 0 < n2) (hr : 0 ≤ r1) :
    0 ≤ combine n1 n2 beta r1 r2 :=
  Int.add_nonneg (Int.mul_nonneg (Int.emod_nonneg _ hn2.ne') hn1.le) hr

theorem combine_lt (hn1 : 0 < n1) (hn2 : 0 < n2) (hr : r1 < n1) :
    combine n1 n2 beta r1 r2 < n1 * n2 := by
  have hlt : (r2 - r1) * beta % n2 + 1 ≤ n2 := Int.emod_lt_of_pos _ hn2
  calc (r2 - r1) * beta % n2 * n1 + r1 < (r2 - r1) * beta % n2 * n1 + n1 := by omega
    _ = ((r2 - r1) * beta % n2 + 1) * n1 := by ring
    _ ≤ n2 * n1 := Int.mul_le_mul_of_nonneg_right hlt hn1.le
    _ = n1 * n2 := Int.mul_comm n2 n1

end CrtPowers
