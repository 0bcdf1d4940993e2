import WalletMpc.CrtPowers
import Mathlib.Tactic.LinearCombination

/-!
Messages modulo `N` hidden as `(1 + N) ^ m` times an `N`-th power modulo `N * N`.
-/

namespace NthResidues
open CrtPowers
set_option autoImplicit true

/-- `c` hides the message `m` under the nonce `r`. -/
def Hides (N : ℕ) (c m r : ℤ) : Prop :=
  IsCoprime r N ∧ c ≡ (1 + m * N) * r ^ N [ZMOD N * N]

/-- `c` hides the message `m` under some nonce. -/
def Opens (N : ℕ) (c m : ℤ) : Prop := ∃ r, Hides N c m r

theorem one_add_mul (N : ℕ) (a b : ℤ) :
    (1 + a * N) * (1 + b * N) ≡ 1 + (a + b) * N [ZMOD N * N] := by
  apply Int.modEq_iff_dvd.2
  exact ⟨-(a * b), by ring⟩

theorem one_add_pow (N : ℕ) (a : ℤ) (k : ℕ) :
    (1 + a * N) ^ k ≡ 1 + k * a * N [ZMOD N * N] := by
  induction k with
  | zero => rw [pow_zero, Nat.cast_zero, zero_mul, zero_mul, add_zero]
  | succ k ih =>
    calc (1 + a * N) ^ (k + 1) = (1 + a * N) ^ k * (1 + a * N) := pow_succ _ k
      _ ≡ (1 + k * a * N) * (1 + a * N) [ZMOD N * N] := ih.mul_right _
      _ ≡ 1 + (k * a + a) * N [ZMOD N * N] := one_add_mul N _ a
      _ = 1 + (k + 1 : ℕ) * a * N := by push_cast; ring

theorem one_add_congr {N : ℕ} (h : a ≡ b [ZMOD N]) : 1 + a * N ≡ 1 + b * N [ZMOD N * N] := by
  obtain ⟨k, hk⟩ := h.dvd
  apply Int.modEq_iff_dvd.2
  exact ⟨k, by linear_combination (N : ℤ) * hk⟩

theorem message_modEq {N : ℕ} (hN : 0 < N) (h : 1 + a * N ≡ 1 + b * N [ZMOD N * N]) :
    a ≡ b [ZMOD N] := by
  have hmul : a * N ≡ b * N [ZMOD N * N] := Int.ModEq.add_left_cancel' 1 h
  exact Int.ModEq.mul_right_cancel' (Int.natCast_pos.2 hN).ne' hmul

theorem coprime_one_add (N : ℕ) (a : ℤ) : IsCoprime (1 + a * N) N := ⟨1, -a, by ring⟩

theorem coprime_of_modEq (h : a ≡ b [ZMOD n]) (hb : IsCoprime b n) : IsCoprime a n := by
  obtain ⟨k, hk⟩ := h.dvd
  obtain rfl : a = b + n * -k := by linear_combination -hk
  exact hb.add_mul_left_left _

theorem Hides.coprime {N : ℕ} (h : Hides N c m r) : IsCoprime c (N * N) := by
  apply coprime_of_modEq h.2
  have hone := (coprime_one_add N m).mul_left (h.1.pow_left (m := N))
  exact hone.mul_right hone

theorem Opens.coprime {N : ℕ} (h : Opens N c m) : IsCoprime c (N * N) := h.elim fun _ => Hides.coprime

theorem Opens.congr {N : ℕ} (h : Opens N c m) (hc : c' ≡ c [ZMOD N * N]) (hm : m' ≡ m [ZMOD N]) :
    Opens N c' m' := by
  obtain ⟨r, hr, hcr⟩ := h
  exact ⟨r, hr, hc.trans (hcr.trans ((one_add_congr hm).symm.mul_right _))⟩

theorem Hides.mul {N : ℕ} (h : Hides N c m r) (h' : Hides N c' m' r') :
    Hides N (c * c') (m + m') (r * r') := by
  refine ⟨h.1.mul_left h'.1, ?_⟩
  calc c * c' ≡ (1 + m * N) * r ^ N * ((1 + m' * N) * r' ^ N) [ZMOD N * N] := h.2.mul h'.2
    _ = (1 + m * N) * (1 + m' * N) * (r * r') ^ N := by ring
    _ ≡ (1 + (m + m') * N) * (r * r') ^ N [ZMOD N * N] := (one_add_mul N m m').mul_right _

theorem Opens.mul {N : ℕ} (h : Opens N c m) (h' : Opens N c' m') : Opens N (c * c') (m + m') := by
  obtain ⟨r, hr⟩ := h
  obtain ⟨r', hr'⟩ := h'
  exact ⟨r * r', hr.mul hr'⟩

theorem opens_one (N : ℕ) : Opens N 1 0 :=
  ⟨1, isCoprime_one_left, by rw [zero_mul, add_zero, one_pow, mul_one]⟩

theorem Opens.pow {N : ℕ} (h : Opens N c m) (k : ℕ) : Opens N (c ^ k) (k * m) := by
  induction k with
  | zero =>
    rw [pow_zero, Nat.cast_zero, zero_mul]
    exact opens_one N
  | succ k ih =>
    have hmul := ih.mul h
    rw [← pow_succ] at hmul
    exact hmul.congr (Int.ModEq.refl _) (by push_cast; rw [add_mul, one_mul])

theorem Opens.inv {N : ℕ} (h : Opens N c m) (hd : c * d ≡ 1 [ZMOD N * N]) : Opens N d (-m) := by
  obtain ⟨r, hr, hc⟩ := h
  obtain ⟨s, k, hs⟩ := hr
  have hrs : r * s ≡ 1 [ZMOD N] := by
    apply Int.modEq_iff_dvd.2
    exact ⟨k, by linear_combination -hs⟩
  refine ⟨s, ⟨r, k, by rw [← hs]; ring⟩, ?_⟩
  have hpow := pow_modEq_pow hrs
  rw [one_pow, mul_pow] at hpow
  have hmm := one_add_mul N m (-m)
  rw [add_neg_cancel, zero_mul, add_zero] at hmm
  -- both sides are inverse to `c`
  calc d = 1 * 1 * d := by ring
    _ ≡ (1 + m * N) * (1 + -m * N) * (r ^ N * s ^ N) * d [ZMOD N * N] :=
      (hmm.symm.mul hpow.symm).mul_right d
    _ = (1 + -m * N) * s ^ N * ((1 + m * N) * r ^ N * d) := by ring
    _ ≡ (1 + -m * N) * s ^ N * (c * d) [ZMOD N * N] := (hc.symm.mul_right d).mul_left _
    _ ≡ (1 + -m * N) * s ^ N * 1 [ZMOD N * N] := hd.mul_left _
    _ = (1 + -m * N) * s ^ N := mul_one _

/-- An exponent that opens every message, with its inverse. -/
structure Trapdoor (N lam : ℕ) (mu : ℤ) : Prop where
  pos : 0 < N
  kills : Kills N lam
  inv : lam * mu ≡ 1 [ZMOD N]

section Opening

variable {N lam : ℕ} {mu : ℤ}

theorem Trapdoor.coprime (t : Trapdoor N lam mu) : Nat.Coprime N lam := by
  obtain ⟨k, hk⟩ := t.inv.dvd
  apply Nat.isCoprime_iff_coprime.1
  exact ⟨k, mu, by linear_combination -hk⟩

/-- An exponent that is one for the trapdoor and a multiple of `N` for the messages. -/
theorem Trapdoor.exists_root (t : Trapdoor N lam mu) : ∃ v k, N * v = lam * k + 1 := by
  rcases Nat.eq_zero_or_pos lam with h | h
  · have hone : N = 1 := by
      have := t.coprime
      rwa [h, Nat.coprime_zero_right] at this
    exact ⟨1, 0, by rw [hone, Nat.mul_zero]⟩
  · obtain ⟨v, -, hv⟩ := Nat.exists_mul_mod_eq_of_coprime 1 t.coprime h.ne'
    have hle : 1 ≤ N * (v + lam) := Nat.mul_pos t.pos (Nat.add_pos_right v h)
    have hmod : 1 ≡ N * (v + lam) [MOD lam] := by
      rw [Nat.mul_add]
      exact hv.symm.trans (Nat.add_mul_modulus_modEq_iff.2 rfl).symm
    obtain ⟨k, hk⟩ := (Nat.modEq_iff_dvd' hle).1 hmod
    exact ⟨v + lam, k, by omega⟩

theorem Hides.pow_trapdoor (t : Trapdoor N lam mu) (h : Hides N c m r) :
    c ^ lam ≡ 1 + lam * m * N [ZMOD N * N] := by
  calc c ^ lam ≡ ((1 + m * N) * r ^ N) ^ lam [ZMOD N * N] := h.2.pow lam
    _ = (1 + m * N) ^ lam * r ^ (lam * N) := by rw [mul_pow, ← pow_mul, Nat.mul_comm N]
    _ ≡ (1 + lam * m * N) * 1 [ZMOD N * N] :=
      (one_add_pow N m lam).mul (t.kills.square r (h.1.mul_right h.1))
    _ = 1 + lam * m * N := mul_one _

/-- Whatever the nonce, the message is the same. -/
theorem Opens.unique (t : Trapdoor N lam mu) (h : Opens N c m) (h' : Opens N c m') :
    m ≡ m' [ZMOD N] := by
  obtain ⟨r, hr⟩ := h
  obtain ⟨r', hr'⟩ := h'
  have hlam : lam * m ≡ lam * m' [ZMOD N] :=
    message_modEq t.pos ((hr.pow_trapdoor t).symm.trans (hr'.pow_trapdoor t))
  calc m = 1 * m := (one_mul m).symm
    _ ≡ lam * mu * m [ZMOD N] := t.inv.symm.mul_right m
    _ = mu * (lam * m) := by ring
    _ ≡ mu * (lam * m') [ZMOD N] := hlam.mul_left mu
    _ = lam * mu * m' := by ring
    _ ≡ 1 * m' [ZMOD N] := t.inv.mul_right m'
    _ = m' := one_mul m'

/-- What the trapdoor reads from a number prime to `N`: `(c ^ lam - 1) / N * mu`. -/
theorem Trapdoor.opens {c l : ℤ} (t : Trapdoor N lam mu) (hc : IsCoprime c N)
    (hl : c ^ lam = 1 + l * N) :
    Opens N c (l * mu) := by
  obtain ⟨v, k, hv⟩ := t.exists_root
  have hlmu : lam * (l * mu) ≡ l [ZMOD N] := by
    calc lam * (l * mu) = l * (lam * mu) := by ring
      _ ≡ l * 1 [ZMOD N] := t.inv.mul_left l
      _ = l := mul_one l
  -- `d` is an `N`-th residue: `c` with the message taken out
  have hd : (c * (1 + -(l * mu) * N)) ^ lam ≡ 1 [ZMOD N * N] := by
    calc (c * (1 + -(l * mu) * N)) ^ lam = (1 + l * N) * (1 + -(l * mu) * N) ^ lam := by
          rw [mul_pow, hl]
      _ ≡ (1 + l * N) * (1 + lam * -(l * mu) * N) [ZMOD N * N] :=
          (one_add_pow N _ lam).mul_left _
      _ ≡ 1 + (l + lam * -(l * mu)) * N [ZMOD N * N] := one_add_mul N l _
      _ = 1 + (l - lam * (l * mu)) * N := by ring
      _ ≡ 1 + (l - l) * N [ZMOD N * N] := one_add_congr (hlmu.sub_left l)
      _ = 1 := by rw [sub_self, zero_mul, add_zero]
  refine ⟨(c * (1 + -(l * mu) * N)) ^ v, (hc.mul_left (coprime_one_add N _)).pow_left, ?_⟩
  symm
  calc (1 + l * mu * N) * ((c * (1 + -(l * mu) * N)) ^ v) ^ N
      = (1 + l * mu * N) * (((c * (1 + -(l * mu) * N)) ^ lam) ^ k *
          (c * (1 + -(l * mu) * N))) := by
        rw [← pow_mul, Nat.mul_comm v N, hv, pow_succ, pow_mul]
    _ ≡ (1 + l * mu * N) * (1 ^ k * (c * (1 + -(l * mu) * N))) [ZMOD N * N] :=
        ((hd.pow k).mul_right _).mul_left _
    _ = c * ((1 + l * mu * N) * (1 + -(l * mu) * N)) := by rw [one_pow]; ring
    _ ≡ c * (1 + (l * mu + -(l * mu)) * N) [ZMOD N * N] := (one_add_mul N _ _).mul_left c
    _ = c := by rw [add_neg_cancel, zero_mul, add_zero, mul_one]

/-- The nonce is known up to `N` from the number and its message. -/
theorem Hides.nonce_unique (t : Trapdoor N lam mu) (h : Hides N c m r) (h' : Hides N c m' r') :
    r ≡ r' [ZMOD N] := by
  obtain ⟨v, k, hv⟩ := t.exists_root
  have hmod : ∀ {m r}, Hides N c m r → c ≡ r ^ N [ZMOD N] := by
    intro m r h
    calc c ≡ (1 + m * N) * r ^ N [ZMOD N] := h.2.of_mul_left N
      _ = r ^ N + N * (m * r ^ N) := by ring
      _ ≡ r ^ N [ZMOD N] := Int.modEq_add_fac_self
  have hroot : ∀ {m r}, Hides N c m r → c ^ v ≡ r [ZMOD N] := by
    intro m r h
    calc c ^ v ≡ (r ^ N) ^ v [ZMOD N] := (hmod h).pow v
      _ = (r ^ lam) ^ k * r := by rw [← pow_mul, hv, pow_succ, pow_mul]
      _ ≡ 1 ^ k * r [ZMOD N] := ((t.kills r h.1).pow k).mul_right r
      _ = r := by rw [one_pow, one_mul]
  exact (hroot h).symm.trans (hroot h')

end Opening

end NthResidues
