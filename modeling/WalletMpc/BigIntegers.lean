import Mathlib.Data.Int.GCD
import Mathlib.Data.Int.ModEq
import Mathlib.RingTheory.Coprime.Lemmas
import Mathlib.Tactic.LinearCombination

/-! The partial operations of an arbitrary-precision integer, for a modulus that is not zero. -/

namespace BigIntegers
set_option autoImplicit true

/-- The inverse of `a` modulo `n`, in `0..n`, if there is one. -/
def invert (a n : ℤ) : Option ℤ :=
  if Int.gcd a n = 1 then some (Int.gcdA a n % n) else none

/-- `a ^ e` modulo `n`, in `0..n`; a negative power is one of the inverse. -/
def powMod (a e n : ℤ) : Option ℤ :=
  if 0 ≤ e then some (a ^ e.toNat % n)
  else (invert a n).map fun b => b ^ (-e).toNat % n

theorem invert_eq_some_iff (hn : 0 < n) :
    invert a n = some b ↔ a * b ≡ 1 [ZMOD n] ∧ 0 ≤ b ∧ b < n := by
  have hcancel : ∀ {b b'}, a * b ≡ 1 [ZMOD n] → a * b' ≡ 1 [ZMOD n] → b ≡ b' [ZMOD n] := by
    intro b b' h h'
    calc b = 1 * b := (one_mul b).symm
      _ ≡ a * b' * b [ZMOD n] := h'.symm.mul_right b
      _ = a * b * b' := by ring
      _ ≡ 1 * b' [ZMOD n] := h.mul_right b'
      _ = b' := one_mul b'
  have hinv : Int.gcd a n = 1 → a * Int.gcdA a n ≡ 1 [ZMOD n] := by
    intro hgcd
    have hbezout := Int.gcd_eq_gcd_ab a n
    rw [hgcd, Nat.cast_one] at hbezout
    rw [hbezout]
    exact Int.modEq_add_fac_self.symm
  apply Iff.intro
  · intro h
    unfold invert at h
    split at h
    · next hgcd =>
      cases h
      exact ⟨((Int.mod_modEq _ _).mul_left a).trans (hinv hgcd), Int.emod_nonneg _ hn.ne',
        Int.emod_lt_of_pos _ hn⟩
    · cases h
  · rintro ⟨hmul, hle, hlt⟩
    obtain ⟨k, hk⟩ := hmul.dvd
    have hgcd : Int.gcd a n = 1 :=
      Int.isCoprime_iff_gcd_eq_one.1 ⟨b, k, by linear_combination -hk⟩
    rw [invert, if_pos hgcd, ← Int.emod_eq_of_lt hle hlt]
    exact congrArg some (hcancel (hinv hgcd) hmul)

theorem invert_eq_none_iff : invert a n = none ↔ ¬ IsCoprime a n := by
  rw [invert, Int.isCoprime_iff_gcd_eq_one]
  split
  · next h => exact iff_of_false (Option.some_ne_none _) (not_not_intro h)
  · next h => exact iff_of_true rfl h

theorem exists_invert (hn : 0 < n) (h : IsCoprime a n) :
    ∃ b, invert a n = some b ∧ a * b ≡ 1 [ZMOD n] ∧ 0 ≤ b ∧ b < n := by
  obtain ⟨b, hb⟩ := Option.ne_none_iff_exists'.1 fun hnone => invert_eq_none_iff.1 hnone h
  exact ⟨b, hb, (invert_eq_some_iff hn).1 hb⟩

theorem invert_congr (hn : 0 < n) (h : a ≡ a' [ZMOD n]) : invert a n = invert a' n := by
  apply Option.ext
  intro b
  rw [invert_eq_some_iff hn, invert_eq_some_iff hn]
  exact and_congr_left' ⟨(h.symm.mul_right b).trans, (h.mul_right b).trans⟩

theorem powMod_of_nonneg (he : 0 ≤ e) : powMod a e n = some (a ^ e.toNat % n) := if_pos he

theorem powMod_isSome (he : 0 ≤ e) : (powMod a e n).isSome := by
  rw [powMod_of_nonneg he, Option.isSome_some]

theorem powMod_of_neg (he : e < 0) :
    powMod a e n = (invert a n).map fun b => b ^ (-e).toNat % n :=
  if_neg (Int.not_le.2 he)

/-- A negative power is as well the inverse of a power. -/
theorem powMod_eq (hn : 0 < n) : powMod a e n =
    if e < 0 then invert (a ^ e.natAbs % n) n else some (a ^ e.natAbs % n) := by
  split
  · next he =>
    rw [powMod_of_neg he, show (-e).toNat = e.natAbs by omega, invert_congr hn (Int.mod_modEq _ _)]
    by_cases ha : IsCoprime a n
    · obtain ⟨b, hb, hab, -, -⟩ := exists_invert hn ha
      rw [hb, Option.map_some]
      refine ((invert_eq_some_iff hn).2 ⟨?_, Int.emod_nonneg _ hn.ne', Int.emod_lt_of_pos _ hn⟩).symm
      calc a ^ e.natAbs * (b ^ e.natAbs % n) ≡ a ^ e.natAbs * b ^ e.natAbs [ZMOD n] :=
            (Int.mod_modEq _ _).mul_left _
        _ = (a * b) ^ e.natAbs := (mul_pow _ _ _).symm
        _ ≡ 1 ^ e.natAbs [ZMOD n] := hab.pow _
        _ = 1 := one_pow _
    · rw [invert_eq_none_iff.2 ha, Option.map_none]
      have hpos : 0 < e.natAbs := Int.natAbs_pos.2 he.ne
      exact (invert_eq_none_iff.2 fun h => ha ((IsCoprime.pow_left_iff hpos).1 h)).symm
  · next he =>
    rw [powMod_of_nonneg (Int.not_lt.1 he), show e.toNat = e.natAbs by omega]

end BigIntegers
