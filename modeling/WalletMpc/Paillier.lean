import WalletMpc.PaillierKeys

namespace WalletMpc.FastPaillier
open BigIntegers CrtPowers NthResidues
set_option autoImplicit true

@[simp] theorem EncryptionKey.fromN_n (n : ℤ) : (fromN n).n = n := rfl

@[simp] theorem EncryptionKey.fromN_nn (n : ℤ) : (fromN n).nn = n * n := rfl

theorem EncryptionKey.inSignedGroup_iff {N : ℕ} (hodd : Odd N) :
    (fromN N).inSignedGroup x = true ↔ -(N : ℤ) < 2 * x ∧ 2 * x < N := by
  obtain ⟨k, rfl⟩ := hodd
  have hhalf : ((2 * k + 1 : ℕ) : ℤ) >>> (1 : ℕ) = k := by
    rw [Int.shiftRight_eq_div_pow]
    omega
  show (decide (-(((2 * k + 1 : ℕ) : ℤ) >>> (1 : ℕ)) ≤ x) && decide (x ≤ ((2 * k + 1 : ℕ) : ℤ) >>> (1 : ℕ))) =
    true ↔ _
  rw [hhalf, Bool.and_eq_true, decide_eq_true_eq, decide_eq_true_eq]
  omega

/-- Of the numbers with one residue modulo `N` just one is in the signed group. -/
theorem EncryptionKey.eq_of_signed {N : ℕ} (hodd : Odd N)
    (hx : (fromN N).inSignedGroup x = true) (hy : (fromN N).inSignedGroup y = true)
    (h : x ≡ y [ZMOD N]) : x = y := by
  rw [inSignedGroup_iff hodd] at hx hy
  have habs : |y - x| < N := abs_lt.2 ⟨by omega, by omega⟩
  have := Int.eq_zero_of_abs_lt_dvd h.dvd habs
  omega

theorem square_pos {N : ℕ} (hN : 0 < N) : (0 : ℤ) < N * N :=
  Int.mul_pos (Int.natCast_pos.2 hN) (Int.natCast_pos.2 hN)

/-- The message factor of a ciphertext, as `encryptWith` computes it from a signed plaintext. -/
theorem EncryptionKey.message_factor {N : ℕ} (hN : 0 < N)
    (hx : (fromN N).inSignedGroup x = true) :
    0 ≤ (1 + (if 0 ≤ x then x else x + N) * N : ℤ) ∧
      1 + (if 0 ≤ x then x else x + N) * N ≡ 1 + x * N [ZMOD N * N] := by
  have hhalf : (N : ℤ) >>> (1 : ℕ) ≤ N := by
    rw [Int.shiftRight_eq_div_pow]
    omega
  have hle : -((N : ℤ) >>> (1 : ℕ)) ≤ x := of_decide_eq_true (Bool.and_eq_true_iff.1 hx).1
  split
  · next h => exact ⟨Int.add_nonneg Int.one_nonneg (Int.mul_nonneg h (by omega)), rfl⟩
  · refine ⟨Int.add_nonneg Int.one_nonneg (Int.mul_nonneg (by omega) (by omega)), ?_⟩
    exact one_add_congr (Int.add_modulus_modEq_iff.2 rfl)

/-- What `encryptWith` computes, in one formula. -/
theorem EncryptionKey.encryptWith_eq {N : ℕ} (hN : 0 < N) (x r : ℤ) :
    (fromN N).encryptWith x r = if (fromN N).inSignedGroup x && inMultGroup r N
      then .ok ((1 + x * N) * r ^ N % (N * N)) else .error .encrypt := by
  have hpow : powMod r N (N * N) = some (r ^ N % (N * N)) :=
    powMod_of_nonneg (Int.natCast_nonneg N)
  simp only [encryptWith, fromN_n, fromN_nn, hpow, ← Bool.not_and]
  by_cases h : ((fromN N).inSignedGroup x && inMultGroup r N) = true
  · obtain ⟨hpos, hmod⟩ := message_factor hN (Bool.and_eq_true_iff.1 h).1
    rw [h, if_neg (by decide), if_pos rfl, Int.tmod_eq_emod_of_nonneg hpos]
    have hval := ((Int.mod_modEq _ _).trans hmod).mul (Int.mod_modEq (r ^ N) (N * N : ℤ))
    exact congrArg Except.ok hval
  · rw [Bool.eq_false_of_not_eq_true h, Bool.not_false, if_pos rfl, if_neg Bool.false_ne_true]

section Key

variable {dk : DecryptionKey} {N lam : ℕ}

theorem coprime_square {n : ℤ} (h : IsCoprime x n) : IsCoprime x (n * n) := h.mul_right h

theorem DecryptionKey.Fits.pos (h : dk.Fits N lam) : 0 < N := h.trapdoor.pos

theorem DecryptionKey.Fits.exp {x : ℤ} (h : dk.Fits N lam) (hx : IsCoprime x (N * N)) (e : ℤ) :
    dk.crtModNn.exp x (dk.crtModNn.prepareExponent e) = powMod x e (N * N) := by
  rw [← h.crt_n] at hx ⊢
  exact dk.crtModNn.exp_eq_powMod h.kills1 h.kills2 hx e

/-- Knowing the factors makes encryption faster and changes nothing else. -/
theorem DecryptionKey.Fits.encryptWith (h : dk.Fits N lam) (x r : ℤ) :
    dk.encryptWith x r = dk.ek.encryptWith x r := by
  rw [h.ek, EncryptionKey.encryptWith_eq h.pos]
  simp only [DecryptionKey.encryptWith, h.ek, EncryptionKey.fromN_n, EncryptionKey.fromN_nn,
    ← Bool.not_and]
  by_cases hin : ((EncryptionKey.fromN N).inSignedGroup x && inMultGroup r N) = true
  · obtain ⟨hx, hr⟩ := Bool.and_eq_true_iff.1 hin
    obtain ⟨hpos, hmod⟩ := EncryptionKey.message_factor h.pos hx
    have hexp : dk.crtModNn.exp r dk.expN = some (r ^ N % (N * N)) := by
      rw [h.expN, h.exp (coprime_square (inMultGroup_iff.1 hr).2.2)]
      exact powMod_of_nonneg (Int.natCast_nonneg N)
    have hnn : (N * N : ℤ) ≠ 0 := (square_pos h.pos).ne'
    rw [hin, if_neg (by decide), if_pos rfl, hexp, Int.tmod_eq_emod_of_nonneg hpos]
    show Except.ok _ = _
    rw [Int.tmod_eq_emod_of_nonneg
      (Int.mul_nonneg (Int.emod_nonneg _ hnn) (Int.emod_nonneg _ hnn))]
    have hval := ((Int.mod_modEq _ _).trans hmod).mul (Int.mod_modEq (r ^ N) (N * N : ℤ))
    exact congrArg Except.ok hval
  · rw [Bool.eq_false_of_not_eq_true hin, Bool.not_false, if_pos rfl, if_neg Bool.false_ne_true]

theorem DecryptionKey.Fits.omul (h : dk.Fits N lam) (scalar c : ℤ) :
    dk.omul scalar c = dk.ek.omul scalar c := by
  simp only [DecryptionKey.omul, EncryptionKey.omul]
  by_cases hc : inMultGroup c dk.ek.nn = true
  · have hcop := (inMultGroup_iff.1 hc).2.2
    rw [h.ek, EncryptionKey.fromN_nn] at hcop ⊢
    rw [h.exp hcop]
  · rw [Bool.eq_false_of_not_eq_true hc, Bool.not_false, Bool.or_true, if_pos rfl, if_pos rfl]

/-- The function `l` on what is one modulo `N`. -/
theorem EncryptionKey.l_eq {a : ℤ} (hone : 1 < N) (hle : 0 ≤ a) (hlt : a < N * N)
    (h : a ≡ 1 [ZMOD N]) (hc : IsCoprime a (N * N)) :
    ∃ l, (fromN N).l a = some l ∧ 0 ≤ l ∧ a = 1 + l * N := by
  have hmod : a % N = 1 := Eq.trans h (Int.emod_eq_of_lt Int.one_nonneg (by omega))
  have hpos : 1 ≤ a := by
    by_contra hneg
    obtain rfl : a = 0 := by omega
    rw [Int.zero_emod] at hmod
    cases hmod
  have hdiv : (N : ℤ) ∣ a - 1 := h.symm.dvd
  have hgroup : inMultGroup a (N * N) = true := inMultGroup_iff.2 ⟨hpos, hlt, hc⟩
  refine ⟨(a - 1) / N, ?_, Int.ediv_nonneg (by omega) (by omega), ?_⟩
  · simp only [l, fromN_n, fromN_nn, Int.tmod_eq_emod_of_nonneg hle, hmod, hgroup,
      Int.tdiv_eq_ediv_of_nonneg (Int.sub_nonneg.2 hpos)]
    rfl
  · rw [Int.ediv_mul_cancel hdiv]
    omega

theorem DecryptionKey.Fits.decrypt_group (h : dk.Fits N lam)
    (hc : inMultGroup c (N * N) = true) :
    ∃ m, dk.decrypt c = .ok m ∧ dk.ek.inSignedGroup m = true ∧ Opens N c m := by
  have hnn := square_pos h.pos
  have hone := h.one_lt
  obtain ⟨-, -, hcop⟩ := inMultGroup_iff.1 hc
  have hexp : dk.crtModNn.exp c dk.expLambda = some (c ^ lam % (N * N)) := by
    rw [h.expLambda, h.exp hcop]
    exact powMod_of_nonneg (Int.natCast_nonneg lam)
  have hpow : c ^ lam % (N * N) ≡ c ^ lam [ZMOD N * N] := Int.mod_modEq _ _
  obtain ⟨l, hl, hlpos, ha⟩ := EncryptionKey.l_eq hone (Int.emod_nonneg (c ^ lam) hnn.ne')
    (Int.emod_lt_of_pos _ hnn) ((hpow.of_mul_right N).trans (h.trapdoor.kills c
    hcop.of_mul_right_left)) (coprime_of_modEq hpow hcop.pow_left)
  -- the whole power differs from its residue by a multiple of `N` in the place of `l`
  have hopens : Opens N c (l * dk.mu) := by
    have hwhole : c ^ lam = 1 + (l + N * (c ^ lam / (N * N))) * N := by
      have := Int.emod_add_mul_ediv (c ^ lam) (N * N)
      linear_combination ha - this
    refine (h.trapdoor.opens hcop.of_mul_right_left hwhole).congr rfl ?_
    exact (Int.modEq_add_fac_self (n := N)).symm.mul_right _
  have hlt := Int.emod_lt_of_pos (l * dk.mu) (Int.natCast_pos.2 h.pos)
  have hle := Int.emod_nonneg (l * dk.mu) (Int.natCast_pos.2 h.pos).ne'
  have hplain : (l * dk.mu).tmod N = l * dk.mu % N :=
    Int.tmod_eq_emod_of_nonneg (Int.mul_nonneg hlpos h.mu_nonneg)
  have hdecrypt : dk.decrypt c = if N ≤ (l * dk.mu % N) * 2 then .ok (l * dk.mu % N - N)
      else .ok (l * dk.mu % N) := by
    simp only [DecryptionKey.decrypt, h.ek, EncryptionKey.fromN_nn, EncryptionKey.fromN_n, hc, hexp,
      Bool.not_true, Bool.false_eq_true, if_false]
    show Fallible.okOr ((EncryptionKey.fromN N).l _) _ >>= _ = _
    rw [hl]
    show (if (N : ℤ) ≤ (l * dk.mu).tmod N <<< (1 : ℕ) then _ else _) = _
    rw [hplain, Int.shiftLeft_eq, pow_one]
  obtain ⟨k, hk⟩ := h.odd
  rw [hdecrypt, h.ek]
  split
  · refine ⟨_, rfl, (EncryptionKey.inSignedGroup_iff h.odd).2 (by omega), hopens.congr rfl ?_⟩
    exact (Int.sub_modulus_modEq_iff.2 rfl).trans (Int.mod_modEq _ _)
  · refine ⟨_, rfl, (EncryptionKey.inSignedGroup_iff h.odd).2 (by omega), hopens.congr rfl ?_⟩
    exact Int.mod_modEq _ _

/-- What a key decrypts: the ciphertexts of the group, each to the one signed message that it
hides. -/
theorem DecryptionKey.Fits.decrypt_eq_ok_iff (h : dk.Fits N lam) :
    dk.decrypt c = .ok m ↔
      inMultGroup c dk.ek.nn = true ∧ dk.ek.inSignedGroup m = true ∧ Opens N c m := by
  rw [h.ek, EncryptionKey.fromN_nn]
  by_cases hc : inMultGroup c (N * N) = true
  · obtain ⟨m', hm', hsigned, hopens⟩ := h.decrypt_group hc
    rw [h.ek] at hsigned
    rw [hm', and_iff_right hc]
    apply Iff.intro
    · rintro ⟨rfl⟩
      exact ⟨hsigned, hopens⟩
    · rintro ⟨hsigned', hopens'⟩
      exact congrArg Except.ok
        (EncryptionKey.eq_of_signed h.odd hsigned hsigned' (hopens.unique h.trapdoor hopens'))
  · have hnot : dk.decrypt c = .error .decrypt := by
      rw [DecryptionKey.decrypt, h.ek, EncryptionKey.fromN_nn, Bool.eq_false_of_not_eq_true hc]
      rfl
    rw [hnot]
    exact iff_of_false (fun hm => by cases hm) fun hm => hc hm.1

/-- A member of the group and a message that it hides. -/
def Carries (N : ℕ) (c m : ℤ) : Prop := inMultGroup c (N * N) = true ∧ Opens N c m

theorem bmod_modEq (m : ℤ) (N : ℕ) : m.bmod N ≡ m [ZMOD N] :=
  Int.modEq_iff_dvd.2 Int.dvd_self_sub_bmod

theorem DecryptionKey.Fits.signed_bmod (h : dk.Fits N lam) (m : ℤ) :
    dk.ek.inSignedGroup (m.bmod N) = true := by
  have hle := Int.le_bmod (x := m) h.pos
  have hlt := Int.bmod_lt (x := m) h.pos
  obtain ⟨k, hk⟩ := h.odd
  rw [h.ek, EncryptionKey.inSignedGroup_iff h.odd]
  omega

theorem DecryptionKey.Fits.decrypt_of_carries (h : dk.Fits N lam) (hc : Carries N c m) :
    dk.decrypt c = .ok (m.bmod N) := by
  apply h.decrypt_eq_ok_iff.2
  rw [h.ek, EncryptionKey.fromN_nn, ← h.ek]
  exact ⟨hc.1, h.signed_bmod m, hc.2.congr rfl (bmod_modEq m N)⟩

theorem DecryptionKey.Fits.carries_of_decrypt (h : dk.Fits N lam) (hm : dk.decrypt c = .ok m) :
    Carries N c m := by
  obtain ⟨hc, -, hopens⟩ := h.decrypt_eq_ok_iff.1 hm
  rw [h.ek] at hc
  exact ⟨hc, hopens⟩

/-- The residue of what opens to a message carries that message. -/
theorem carries_emod (hN : 1 < N) (h : Opens N c m) : Carries N (c % (N * N)) m := by
  have hone : (1 : ℤ) < N * N := by
    have := Nat.mul_lt_mul'' hN hN
    exact_mod_cast this
  have hmod : c % (N * N) ≡ c [ZMOD N * N] := Int.mod_modEq _ _
  exact ⟨inMultGroup_emod hone (coprime_of_modEq hmod h.coprime), h.congr hmod rfl⟩

theorem DecryptionKey.Fits.carries_of_encryptWith (h : dk.Fits N lam)
    (hc : dk.ek.encryptWith x r = .ok c) : Carries N c x := by
  rw [h.ek, EncryptionKey.encryptWith_eq h.pos] at hc
  split at hc
  · next hin =>
    cases hc
    obtain ⟨-, hr⟩ := Bool.and_eq_true_iff.1 hin
    exact carries_emod h.one_lt ⟨r, (inMultGroup_iff.1 hr).2.2, rfl⟩
  · cases hc

theorem DecryptionKey.Fits.encryptWith_eq_ok_iff (h : dk.Fits N lam) :
    dk.ek.encryptWith x r = .ok c ↔ dk.ek.inSignedGroup x = true ∧ inMultGroup r N = true ∧
      inMultGroup c (N * N) = true ∧ Hides N c x r := by
  apply Iff.intro
  · intro hc
    have hgroup := (h.carries_of_encryptWith hc).1
    rw [h.ek, EncryptionKey.encryptWith_eq h.pos] at hc
    split at hc
    · next hin =>
      cases hc
      obtain ⟨hx, hr⟩ := Bool.and_eq_true_iff.1 hin
      rw [h.ek]
      exact ⟨hx, hr, hgroup, (inMultGroup_iff.1 hr).2.2, Int.mod_modEq _ _⟩
    · cases hc
  · rintro ⟨hx, hr, hc, hhides⟩
    rw [h.ek] at hx ⊢
    rw [EncryptionKey.encryptWith_eq h.pos, if_pos (Bool.and_eq_true_iff.2 ⟨hx, hr⟩)]
    obtain ⟨hpos, hlt, -⟩ := inMultGroup_iff.1 hc
    rw [← Int.emod_eq_of_lt hpos.le hlt]
    exact congrArg Except.ok hhides.2.symm

theorem DecryptionKey.Fits.decrypt_iff_existsUnique (h : dk.Fits N lam) :
    dk.decrypt c = .ok m ↔ ∃! r, dk.ek.encryptWith m r = .ok c := by
  rw [h.decrypt_eq_ok_iff]
  apply Iff.intro
  · rintro ⟨hc, hm, r, hr⟩
    rw [h.ek, EncryptionKey.fromN_nn] at hc
    have hmod : r % N ≡ r [ZMOD N] := Int.mod_modEq _ _
    have hcop := coprime_of_modEq hmod hr.1
    have hhides : Hides N c m (r % N) :=
      ⟨hcop, hr.2.trans ((pow_modEq_pow hmod).symm.mul_left _)⟩
    have hN := h.one_lt
    have hgroup : inMultGroup (r % N) N = true := inMultGroup_emod (by omega) hcop
    refine ⟨r % N, h.encryptWith_eq_ok_iff.2 ⟨hm, hgroup, hc, hhides⟩, fun r' hr' => ?_⟩
    obtain ⟨-, hgroup', -, hhides'⟩ := h.encryptWith_eq_ok_iff.1 hr'
    obtain ⟨hpos, hlt, -⟩ := inMultGroup_iff.1 hgroup
    obtain ⟨hpos', hlt', -⟩ := inMultGroup_iff.1 hgroup'
    exact eq_of_modEq (hhides'.nonce_unique h.trapdoor hhides) hpos'.le hlt' hpos.le hlt
  · rintro ⟨r, hr, -⟩
    obtain ⟨hm, -, hc, hhides⟩ := h.encryptWith_eq_ok_iff.1 hr
    rw [← EncryptionKey.fromN_nn, ← h.ek] at hc
    exact ⟨hc, hm, r, hhides⟩

theorem DecryptionKey.Fits.exists_encryptWith (h : dk.Fits N lam)
    (hx : dk.ek.inSignedGroup x = true) (hr : inMultGroup r N = true) :
    ∃ c, dk.ek.encryptWith x r = .ok c ∧ dk.decrypt c = .ok x := by
  have henc : ∃ c, dk.ek.encryptWith x r = .ok c := by
    rw [h.ek] at hx ⊢
    exact ⟨_, (EncryptionKey.encryptWith_eq h.pos x r).trans
      (if_pos (Bool.and_eq_true_iff.2 ⟨hx, hr⟩))⟩
  obtain ⟨c, hc⟩ := henc
  have hcarries := h.carries_of_encryptWith hc
  refine ⟨c, hc, h.decrypt_eq_ok_iff.2 ⟨?_, hx, hcarries.2⟩⟩
  rw [h.ek]
  exact hcarries.1

theorem DecryptionKey.Fits.encryptWith_of_out (h : dk.Fits N lam)
    (hout : ¬ (dk.ek.inSignedGroup x = true ∧ inMultGroup r N = true)) :
    dk.ek.encryptWith x r = .error .encrypt := by
  rw [h.ek] at hout ⊢
  rw [EncryptionKey.encryptWith_eq h.pos, if_neg fun hin => hout (Bool.and_eq_true_iff.1 hin)]

end Key

/-- Decryption undoes encryption and nothing is lost either way: a key decrypts the members of
the group of `N ^ 2`, to the one plaintext that some nonce, and only that one, encrypts to them. -/
theorem DecryptionKey.decrypt_iff_encryptWith {p q : ℕ} (hp : p.Prime) (hq : q.Prime)
    (h : fromPrimes p q = .ok dk) :
    (∀ c m, dk.decrypt c = .ok m ↔ ∃! r, dk.ek.encryptWith m r = .ok c) ∧
    (∀ c, (∃ m, dk.decrypt c = .ok m) ↔ inMultGroup c dk.ek.nn = true) ∧
    ∀ x r, (∃ c, dk.ek.encryptWith x r = .ok c) ↔
      dk.ek.inSignedGroup x = true ∧ inMultGroup r dk.ek.n = true := by
  obtain ⟨-, -, -, hfits⟩ := fits_of_fromPrimes hp hq h
  refine ⟨fun c m => hfits.decrypt_iff_existsUnique, fun c => ⟨?_, fun hc => ?_⟩,
    fun x r => ⟨?_, fun hin => ?_⟩⟩
  · rintro ⟨m, hm⟩
    exact (hfits.decrypt_eq_ok_iff.1 hm).1
  · rw [hfits.ek, EncryptionKey.fromN_nn] at hc
    obtain ⟨m, hm, -⟩ := hfits.decrypt_group hc
    exact ⟨m, hm⟩
  · rintro ⟨c, hc⟩
    obtain ⟨hx, hr, -⟩ := hfits.encryptWith_eq_ok_iff.1 hc
    rw [hfits.ek] at hx ⊢
    exact ⟨hx, hr⟩
  · obtain ⟨hx, hr⟩ := hin
    rw [hfits.ek, EncryptionKey.fromN_n] at hr
    obtain ⟨c, hc, -⟩ := hfits.exists_encryptWith hx hr
    exact ⟨c, hc⟩

/-- The key of 3 and 5. -/
theorem DecryptionKey.exists_three_five : ∃ dk, fromPrimes (3 : ℕ) (5 : ℕ) = .ok dk ∧
    dk.Fits 15 4 ∧ dk.decrypt 31 = .ok 2 := by
  obtain ⟨dk, h, -, -, hfits⟩ :=
    fromPrimes_fits Nat.prime_three Nat.prime_five unrelated_three_five
  refine ⟨dk, h, hfits, hfits.decrypt_eq_ok_iff.2 ?_⟩
  rw [hfits.ek]
  exact ⟨by decide, by decide, 1, isCoprime_one_left, by decide⟩

theorem DecryptionKey.decrypt_iff_encryptWith_three_five :
    ∃ dk, fromPrimes (3 : ℕ) (5 : ℕ) = .ok dk ∧ ∃! r, dk.ek.encryptWith 2 r = .ok 31 := by
  obtain ⟨dk, h, -, hdecrypt⟩ := exists_three_five
  exact ⟨dk, h, ((decrypt_iff_encryptWith Nat.prime_three Nat.prime_five h).1 31 2).1 hdecrypt⟩

end WalletMpc.FastPaillier
