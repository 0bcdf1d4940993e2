import WalletMpc.SafePrimeSearch
import WalletMpc.PaillierKeys

namespace WalletMpc.FastPaillier
set_option autoImplicit true

/-- The table, the primality test and the random bits of the call are given. -/
def generateSafePrime (smallPrimes : List SmallPrime) (isProbablyPrime : Nat → Nat → IsPrime)
    (randomBits : Nat → (n : Nat) → BitVec n) (bits : Nat) : Call :=
  { smallPrimes, isProbablyPrime, randomBits, bits, amount := 300000 }

/-- Bits length of the smaller prime. -/
def DecryptionKey.bitsLength (dk : DecryptionKey) : Nat :=
  min dk.p.natAbs.size dk.q.natAbs.size

/-- A run of `generate`, where `bits` is 1536: two searches, each with random bits of its own, and
the key of what they return. -/
def DecryptionKey.Generates (smallPrimes : List SmallPrime)
    (isProbablyPrime : Nat → Nat → IsPrime) (bits : Nat) (p q : Nat)
    (result : Except Reason DecryptionKey) : Prop :=
  ∃ randomBits randomBits',
    (generateSafePrime smallPrimes isProbablyPrime randomBits bits).Returns p ∧
    (generateSafePrime smallPrimes isProbablyPrime randomBits' bits).Returns q ∧
    result = fromPrimes p q

theorem Call.returned_safe {c : Call} (hbits : 2 ≤ c.bits)
    (hexact : ∀ n, (c.isProbablyPrime n 25).accepted = true ↔ n.Prime) (h : c.Returns r) :
    ∃ s, r = 2 * s + 1 ∧ s.Prime ∧ r.Prime ∧ c.bits ≤ r.size := by
  obtain ⟨i, b, k, hb, hk, rfl, -⟩ := (returns_iff_finds hbits).1 h
  obtain ⟨b', hb', hle, -⟩ := drawBase_eq hbits i
  obtain rfl := Option.some.inj (hb.symm.trans hb')
  obtain ⟨hs, hr⟩ := (passes_iff hexact).1 hk.1.2.2
  refine ⟨b + 2 * k, rfl, hs, hr, ?_⟩
  have hlong : c.bits - 1 < (2 * (b + 2 * k) + 1).size := by
    rw [Nat.lt_size, show c.bits - 1 = c.bits - 2 + 1 by omega, Nat.pow_succ]
    omega
  omega

/-- Of two safe primes the one divides what is one less than the other just when the other is
built on it. -/
theorem safe_dvd_pred_iff (hp : p.Prime) (hs : s.Prime) (ht : t.Prime) (h : p = 2 * s + 1) :
    p ∣ 2 * t + 1 - 1 ↔ 2 * t + 1 = 2 * p + 1 := by
  have htwo : ¬ p ∣ 2 := by
    intro hdvd
    have := Nat.le_of_dvd Nat.two_pos hdvd
    have := hs.two_le
    omega
  rw [Nat.add_sub_cancel, hp.dvd_mul, or_iff_right htwo, Nat.prime_dvd_prime_iff_eq hp ht]
  omega

theorem size_lt_of_double (h : q = 2 * p + 1) (hp : 0 < p) : p.size < q.size := by
  have hle : 2 ^ (p.size - 1) ≤ p := Nat.lt_size.1 (by have := Nat.size_pos.2 hp; omega)
  rw [Nat.lt_size, ← Nat.succ_pred_eq_of_pos (Nat.size_pos.2 hp), Nat.pow_succ, Nat.pred_eq_sub_one]
  omega

/-- Generation succeeds but for two related primes, and of primes of one length only equal ones
are related; the primes of the key have the length that was asked for, or more. -/
theorem DecryptionKey.generates_ok_iff {p q : Nat} (hbits : 2 ≤ bits)
    (hexact : ∀ n, (isProbablyPrime n 25).accepted = true ↔ n.Prime)
    (h : Generates smallPrimes isProbablyPrime bits p q result) :
    ((∃ dk, result = .ok dk) ↔ p ≠ q ∧ p ≠ 2 * q + 1 ∧ q ≠ 2 * p + 1) ∧
    (p.size = q.size → ((∃ dk, result = .ok dk) ↔ p ≠ q)) ∧
    (∀ e, result = .error e → e = .invalidPQ) ∧
    ∀ dk, result = .ok dk → dk.p = p ∧ dk.q = q ∧ p.Prime ∧ q.Prime ∧ bits ≤ dk.bitsLength := by
  obtain ⟨randomBits, randomBits', hfirst, hsecond, rfl⟩ := h
  obtain ⟨s, hps, hs, hp, hplen⟩ := Call.returned_safe hbits hexact hfirst
  obtain ⟨t, hqt, ht, hq, hqlen⟩ := Call.returned_safe hbits hexact hsecond
  have hiff : (∃ dk, fromPrimes p q = .ok dk) ↔ p ≠ q ∧ p ≠ 2 * q + 1 ∧ q ≠ 2 * p + 1 := by
    rw [(fromPrimes_primes hp hq).1]
    have hpq : p ∣ q - 1 ↔ q = 2 * p + 1 := by
      rw [hqt]
      exact safe_dvd_pred_iff hp hs ht hps
    have hqp : q ∣ p - 1 ↔ p = 2 * q + 1 := by
      rw [hps]
      exact safe_dvd_pred_iff hq ht hs hqt
    rw [hpq, hqp, and_comm (a := ¬ q = 2 * p + 1)]
  refine ⟨hiff, fun hsize => ?_, (fromPrimes_primes hp hq).2.1, fun dk hdk => ?_⟩
  · rw [hiff, and_iff_left_iff_imp]
    intro _
    apply And.intro
    · intro hdouble
      have := size_lt_of_double hdouble hq.pos
      omega
    · intro hdouble
      have := size_lt_of_double hdouble hp.pos
      omega
  · obtain ⟨-, hdkp, hdkq, -⟩ := fits_of_fromPrimes hp hq hdk
    refine ⟨hdkp, hdkq, hp, hq, ?_⟩
    rw [bitsLength, hdkp, hdkq, Int.natAbs_natCast, Int.natAbs_natCast]
    exact Nat.le_min.2 ⟨hplen, hqlen⟩

theorem smallCall_returns {s : Nat} (hs : s.Prime) (hsafe : (2 * s + 1).Prime) (hlt : s < 2 ^ 5)
    (hbase : s ||| 2 ^ 4 ||| 1 = s) (hthree : s % 3 = 2) :
    (generateSafePrime (smallCall 6).smallPrimes (smallCall 6).isProbablyPrime
      (fun _ n => BitVec.ofNat n s) 6).Returns (2 * s + 1) := by
  refine (Call.returns_iff_finds (by show 2 ≤ 6; decide)).2 ⟨0, s, 0, ?_, ⟨?_, ?_⟩, rfl, ?_⟩
  · show some ((BitVec.ofNat 5 s).toNat ||| 2 ^ 4 ||| 1) = some s
    rw [BitVec.toNat_ofNat, Nat.mod_eq_of_lt hlt, hbase]
  · refine (Call.mem_found_of_lt sieveSize_pos).2 ⟨hlt, sieveSize_pos, ?_, ?_⟩
    · intro p hp
      unfold Strikes
      have hp' : p.1 = 2 ∨ p.1 = 3 := by
        have : ∀ p ∈ (smallCall 6).used, p.1 = 2 ∨ p.1 = 3 := by decide
        exact this p hp
      rcases hp' with h | h
      · rw [h]
        omega
      · rw [h]
        omega
    · exact (passes_iff (smallCall_exact 6)).2 ⟨hs, hsafe⟩
  · intro k hk
    exact Nat.zero_le k
  · intro j hj
    exact absurd hj (Nat.not_lt_zero j)

theorem DecryptionKey.generates_ok_iff_six_bits :
    Generates (smallCall 6).smallPrimes (smallCall 6).isProbablyPrime 6 47 59
      (fromPrimes (47 : ℕ) (59 : ℕ)) ∧ ∃ dk, fromPrimes (47 : ℕ) (59 : ℕ) = .ok dk := by
  have h : Generates (smallCall 6).smallPrimes (smallCall 6).isProbablyPrime 6 47 59
      (fromPrimes (47 : ℕ) (59 : ℕ)) :=
    ⟨_, _, smallCall_returns (s := 23) (by norm_num) (by norm_num) (by decide) (by decide) rfl,
      smallCall_returns (s := 29) (by norm_num) (by norm_num) (by decide) (by decide) rfl, rfl⟩
  exact ⟨h, (generates_ok_iff (by decide) (smallCall_exact 6) h).1.2 (by decide)⟩

end WalletMpc.FastPaillier
