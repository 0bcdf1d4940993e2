import WalletMpc.CrtExp
import WalletMpc.NthResidues
import WalletMpc.Fallible

namespace WalletMpc.FastPaillier
open BigIntegers CrtPowers NthResidues
set_option autoImplicit true

abbrev Ciphertext := ℤ

abbrev Plaintext := ℤ

abbrev Nonce := ℤ

inductive Bug where
  | powModUndef
deriving DecidableEq, Repr

inductive Reason where
  | invalidPQ
  | encrypt
  | decrypt
  | ops
  | buildFastExp
  | bug (source : Bug)
deriving DecidableEq, Repr

structure EncryptionKey where
  n : ℤ
  nn : ℤ
  halfN : ℤ
  negHalfN : ℤ
deriving DecidableEq, Repr

def EncryptionKey.fromN (n : ℤ) : EncryptionKey :=
  let nn := n * n
  let halfN := n >>> (1 : ℕ)
  let negHalfN := -halfN
  { n, nn, halfN, negHalfN }

/-- `l(x) = (x-1)/n` -/
def EncryptionKey.l (ek : EncryptionKey) (x : ℤ) : Option ℤ :=
  if x.tmod ek.n ≠ 1 then none
  else if !inMultGroup x ek.nn then none
  else some ((x - 1).tdiv ek.n)

def EncryptionKey.inSignedGroup (ek : EncryptionKey) (x : ℤ) : Bool :=
  decide (ek.negHalfN ≤ x) && decide (x ≤ ek.halfN)

def EncryptionKey.encryptWith (ek : EncryptionKey) (x : Plaintext) (nonce : Nonce) :
    Except Reason Ciphertext :=
  if !ek.inSignedGroup x || !inMultGroup nonce ek.n then .error .encrypt
  else do
    let x := if 0 ≤ x then x else x + ek.n
    let a := (1 + x * ek.n).tmod ek.nn
    let b ← Fallible.okOr (powMod nonce ek.n ek.nn) (.bug .powModUndef)
    .ok (a * b % ek.nn)

def EncryptionKey.oadd (ek : EncryptionKey) (c1 c2 : Ciphertext) : Except Reason Ciphertext :=
  if !inMultGroup c1 ek.nn || !inMultGroup c2 ek.nn then .error .ops
  else .ok ((c1 * c2).tmod ek.nn)

def EncryptionKey.oneg (ek : EncryptionKey) (ciphertext : Ciphertext) :
    Except Reason Ciphertext :=
  Fallible.okOr (invert ciphertext ek.nn) .ops

def EncryptionKey.osub (ek : EncryptionKey) (c1 c2 : Ciphertext) : Except Reason Ciphertext :=
  if !inMultGroup c1 ek.nn then .error .ops
  else do
    let c2 ← ek.oneg c2
    .ok ((c1 * c2).tmod ek.nn)

def EncryptionKey.omul (ek : EncryptionKey) (scalar : ℤ) (ciphertext : Ciphertext) :
    Except Reason Ciphertext :=
  if !inMultGroupAbs scalar ek.n || !inMultGroup ciphertext ek.nn then .error .ops
  else Fallible.okOr (powMod ciphertext scalar ek.nn) .ops

structure DecryptionKey where
  ek : EncryptionKey
  lambda : ℤ
  mu : ℤ
  p : ℤ
  q : ℤ
  crtModNn : CrtExp
  expN : Exponent
  expLambda : Exponent

def DecryptionKey.fromPrimes (p q : ℤ) : Except Reason DecryptionKey :=
  if p = q then .error .invalidPQ
  else
    let pm1 := p - 1
    let qm1 := q - 1
    let ek := EncryptionKey.fromN (p * q)
    let lambda : ℤ := Int.lcm pm1 qm1
    if lambda = 0 then .error .invalidPQ
    else do
      let mu ← Fallible.okOr (invert lambda ek.n) .invalidPQ
      let crtModNn ← Fallible.okOr (CrtExp.buildNn p q) .buildFastExp
      let expN := crtModNn.prepareExponent ek.n
      let expLambda := crtModNn.prepareExponent lambda
      .ok { ek, lambda, mu, p, q, crtModNn, expN, expLambda }

def DecryptionKey.decrypt (dk : DecryptionKey) (c : Ciphertext) : Except Reason Plaintext :=
  if !inMultGroup c dk.ek.nn then .error .decrypt
  else do
    let a ← Fallible.okOr (dk.crtModNn.exp c dk.expLambda) .decrypt
    let l ← Fallible.okOr (dk.ek.l a) .decrypt
    let plaintext := (l * dk.mu).tmod dk.ek.n
    if dk.ek.n ≤ plaintext <<< (1 : ℕ) then .ok (plaintext - dk.ek.n) else .ok plaintext

def DecryptionKey.encryptWith (dk : DecryptionKey) (x : Plaintext) (nonce : Nonce) :
    Except Reason Ciphertext :=
  if !dk.ek.inSignedGroup x || !inMultGroup nonce dk.ek.n then .error .encrypt
  else do
    let x := if 0 ≤ x then x else x + dk.ek.n
    let a := (1 + x * dk.ek.n).tmod dk.ek.nn
    let b ← Fallible.okOr (dk.crtModNn.exp nonce dk.expN) .encrypt
    .ok ((a * b).tmod dk.ek.nn)

def DecryptionKey.omul (dk : DecryptionKey) (scalar : ℤ) (ciphertext : Ciphertext) :
    Except Reason Ciphertext :=
  if !inMultGroupAbs scalar dk.ek.n || !inMultGroup ciphertext dk.ek.nn then .error .ops
  else
    let e := dk.crtModNn.prepareExponent scalar
    Fallible.okOr (dk.crtModNn.exp ciphertext e) .ops

/-- The two implementations of the trait. -/
inductive AnyEncryptionKey where
  | encryption (ek : EncryptionKey)
  | decryption (dk : DecryptionKey)

namespace AnyEncryptionKey

/-- The key that `encryption_key` gives for a decryption key. -/
def encryptionKey : AnyEncryptionKey → EncryptionKey
  | encryption ek => ek
  | decryption dk => dk.ek

def encryptWith (key : AnyEncryptionKey) (x : Plaintext) (nonce : Nonce) :
    Except Reason Ciphertext :=
  match key with
  | encryption ek => ek.encryptWith x nonce
  | decryption dk => dk.encryptWith x nonce

def oadd (key : AnyEncryptionKey) : Ciphertext → Ciphertext → Except Reason Ciphertext :=
  key.encryptionKey.oadd

def osub (key : AnyEncryptionKey) : Ciphertext → Ciphertext → Except Reason Ciphertext :=
  key.encryptionKey.osub

def omul (key : AnyEncryptionKey) (scalar : ℤ) (ciphertext : Ciphertext) :
    Except Reason Ciphertext :=
  match key with
  | encryption ek => ek.omul scalar ciphertext
  | decryption dk => dk.omul scalar ciphertext

def oneg (key : AnyEncryptionKey) : Ciphertext → Except Reason Ciphertext :=
  key.encryptionKey.oneg

/-- What is left of the draws is returned with the result. -/
def encryptWithRandom (key : AnyEncryptionKey) (draws : List ℤ) (x : Plaintext) :
    Option (Except Reason (Ciphertext × Nonce) × List ℤ) :=
  (sampleInMultGroup key.encryptionKey.n draws).map fun (nonce, draws) =>
    ((key.encryptWith x nonce).map fun ciphertext => (ciphertext, nonce), draws)

end AnyEncryptionKey

/-- A key whose parts fit: `lam` opens what is hidden modulo `N`, and the fast exponents are right. -/
structure DecryptionKey.Fits (dk : DecryptionKey) (N lam : ℕ) : Prop where
  ek : dk.ek = .fromN N
  lambda : dk.lambda = lam
  trapdoor : Trapdoor N lam dk.mu
  mu_nonneg : 0 ≤ dk.mu
  odd : Odd N
  one_lt : 1 < N
  crt_n : dk.crtModNn.n = N * N
  expN : dk.expN = dk.crtModNn.prepareExponent N
  expLambda : dk.expLambda = dk.crtModNn.prepareExponent lam
  kills1 : Kills dk.crtModNn.n1 dk.crtModNn.phiN1.toNat
  kills2 : Kills dk.crtModNn.n2 dk.crtModNn.phiN2.toNat

section Primes

variable {p q : ℕ}

/-- Neither prime divides what is one less than the other. -/
def Unrelated (p q : ℕ) : Prop := p ≠ q ∧ ¬ p ∣ q - 1 ∧ ¬ q ∣ p - 1

theorem not_dvd_pred (hp : p.Prime) : ¬ p ∣ p - 1 := by
  have := hp.two_le
  exact Nat.not_dvd_of_pos_of_lt (by omega) (by omega)

theorem coprime_lcm_iff (hp : p.Prime) (hq : q.Prime) :
    Nat.Coprime (Nat.lcm (p - 1) (q - 1)) (p * q) ↔ ¬ p ∣ q - 1 ∧ ¬ q ∣ p - 1 := by
  have hdvd : ∀ {r}, r.Prime → (r ∣ Nat.lcm (p - 1) (q - 1) ↔ r ∣ p - 1 ∨ r ∣ q - 1) := by
    intro r hr
    apply Iff.intro
    · intro h
      exact hr.dvd_mul.1 (h.trans (Nat.lcm_dvd_mul _ _))
    · rintro (h | h)
      · exact h.trans (Nat.dvd_lcm_left _ _)
      · exact h.trans (Nat.dvd_lcm_right _ _)
  rw [Nat.coprime_mul_iff_right, Nat.coprime_comm, hp.coprime_iff_not_dvd, hdvd hp,
    Nat.coprime_comm, hq.coprime_iff_not_dvd, hdvd hq, or_iff_right (not_dvd_pred hp),
    or_iff_left (not_dvd_pred hq)]

theorem Unrelated.odd (h : Unrelated p q) (hp : p.Prime) (hq : q.Prime) : Odd (p * q) := by
  obtain ⟨hne, hpq, hqp⟩ := h
  rcases hp.eq_two_or_odd' with rfl | hpodd
  · have hqodd := hq.odd_of_ne_two (Ne.symm hne)
    exact absurd (even_iff_two_dvd.1 (hqodd.tsub_odd odd_one)) hpq
  · rcases hq.eq_two_or_odd' with rfl | hqodd
    · exact absurd (even_iff_two_dvd.1 (hpodd.tsub_odd odd_one)) hqp
    · exact hpodd.mul hqodd

theorem kills_lcm (hp : p.Prime) (hq : q.Prime) (hne : p ≠ q) :
    Kills (p * q : ℕ) (Nat.lcm (p - 1) (q - 1)) := by
  have hc : IsCoprime (p : ℤ) q := Nat.isCoprime_iff_coprime.2 ((Nat.coprime_primes hp hq).2 hne)
  rw [Nat.cast_mul]
  exact ((kills_prime hp).of_dvd (Nat.dvd_lcm_left _ _)).mul hc
    ((kills_prime hq).of_dvd (Nat.dvd_lcm_right _ _))

theorem kills_square (hp : p.Prime) : Kills (p * p : ℤ) (p * p - p : ℤ).toNat := by
  have hpred : ((p : ℤ) * p - p).toNat = (p - 1) * p := by
    rw [Nat.sub_mul, Nat.one_mul]
    omega
  rw [hpred]
  exact (kills_prime hp).square

theorem buildNn_isSome (hp : p.Prime) (hq : q.Prime) (hne : p ≠ q) :
    (CrtExp.buildNn p q).isSome := by
  have hphi : ∀ {r : ℕ}, r.Prime → 0 < (r * r - r : ℤ) ∧ (r * r - r : ℤ) < r * r := by
    intro r hr
    have := hr.one_lt
    apply And.intro
    · nlinarith
    · omega
  have hc : IsCoprime (p : ℤ) q := Nat.isCoprime_iff_coprime.2 ((Nat.coprime_primes hp hq).2 hne)
  exact CrtExp.build_isSome_iff.2 ⟨hphi hp, hphi hq, (hc.mul_right hc).mul_left (hc.mul_right hc)⟩

theorem lcm_pred_eq (hp : p.Prime) (hq : q.Prime) :
    (Int.lcm ((p : ℤ) - 1) (q - 1) : ℤ) = (Nat.lcm (p - 1) (q - 1) : ℕ) := by
  rw [← Nat.cast_pred hp.pos, ← Nat.cast_pred hq.pos]
  rfl

/-- The key of two unrelated primes. -/
theorem DecryptionKey.fromPrimes_fits (hp : p.Prime) (hq : q.Prime) (h : Unrelated p q) :
    ∃ dk, fromPrimes p q = .ok dk ∧ dk.p = p ∧ dk.q = q ∧
      dk.Fits (p * q) (Nat.lcm (p - 1) (q - 1)) := by
  have hne0 : Nat.lcm (p - 1) (q - 1) ≠ 0 :=
    Nat.lcm_ne_zero (Nat.sub_pos_of_lt hp.one_lt).ne' (Nat.sub_pos_of_lt hq.one_lt).ne'
  have hpos : 0 < p * q := Nat.mul_pos hp.pos hq.pos
  obtain ⟨mu, hmu, hinv, hle, -⟩ := exists_invert (Int.natCast_pos.2 hpos)
    (Nat.isCoprime_iff_coprime.2 ((coprime_lcm_iff hp hq).2 h.2))
  obtain ⟨crt, hcrt⟩ := Option.isSome_iff_exists.1 (buildNn_isSome hp hq h.1)
  obtain ⟨hn1, hphi1, hn2, hphi2⟩ := CrtExp.build_eq_some hcrt
  refine ⟨{ ek := .fromN (p * q : ℕ), lambda := Nat.lcm (p - 1) (q - 1), mu, p, q, crtModNn := crt,
            expN := crt.prepareExponent (p * q : ℕ)
            expLambda := crt.prepareExponent (Nat.lcm (p - 1) (q - 1)) }, ?_, rfl, rfl, ?_⟩
  · rw [fromPrimes, if_neg (Nat.cast_injective.ne h.1)]
    simp only [lcm_pred_eq hp hq, ← Nat.cast_mul, if_neg (Nat.cast_ne_zero.2 hne0), hcrt]
    show Fallible.okOr (invert _ ((p * q : ℕ) : ℤ)) _ >>= _ = _
    rw [hmu]
    rfl
  · exact {
      ek := rfl
      lambda := rfl
      trapdoor := ⟨hpos, kills_lcm hp hq h.1, hinv⟩
      mu_nonneg := hle
      odd := h.odd hp hq
      one_lt := by
        have := Nat.mul_le_mul hp.two_le hq.two_le
        omega
      crt_n := by
        show crt.n = _
        rw [crt.n_eq, hn1, hn2]
        push_cast
        ring
      expN := rfl
      expLambda := rfl
      kills1 := by
        show Kills crt.n1 crt.phiN1.toNat
        rw [hn1, hphi1]
        exact kills_square hp
      kills2 := by
        show Kills crt.n2 crt.phiN2.toNat
        rw [hn2, hphi2]
        exact kills_square hq }

/-- `BuildFastExp` is never the answer to two primes. -/
theorem DecryptionKey.fromPrimes_of_related (hp : p.Prime) (hq : q.Prime) (h : ¬ Unrelated p q) :
    fromPrimes p q = .error .invalidPQ := by
  by_cases hne : p = q
  · rw [fromPrimes, if_pos (congrArg Nat.cast hne)]
  · have hcop : ¬ IsCoprime ((Nat.lcm (p - 1) (q - 1) : ℕ) : ℤ) ((p * q : ℕ) : ℤ) := fun hc =>
      h ⟨hne, (coprime_lcm_iff hp hq).1 (Nat.isCoprime_iff_coprime.1 hc)⟩
    rw [fromPrimes, if_neg (Nat.cast_injective.ne hne)]
    simp only [lcm_pred_eq hp hq, ← Nat.cast_mul]
    split
    · rfl
    · show Fallible.okOr (invert _ ((p * q : ℕ) : ℤ)) _ >>= _ = _
      rw [invert_eq_none_iff.2 hcop]
      rfl

theorem DecryptionKey.fits_of_fromPrimes (hp : p.Prime) (hq : q.Prime)
    (h : fromPrimes p q = .ok dk) :
    Unrelated p q ∧ dk.p = p ∧ dk.q = q ∧ dk.Fits (p * q) (Nat.lcm (p - 1) (q - 1)) := by
  by_cases hpq : Unrelated p q
  · obtain ⟨dk', h', hfits⟩ := fromPrimes_fits hp hq hpq
    rw [h] at h'
    cases h'
    exact ⟨hpq, hfits⟩
  · rw [fromPrimes_of_related hp hq hpq] at h
    cases h

/-- Two primes make a key just when neither divides what is one less than the other, and what
refuses them is never `BuildFastExp`. -/
theorem DecryptionKey.fromPrimes_primes (hp : p.Prime) (hq : q.Prime) :
    ((∃ dk, fromPrimes p q = .ok dk) ↔ p ≠ q ∧ ¬ p ∣ q - 1 ∧ ¬ q ∣ p - 1) ∧
    (∀ e, fromPrimes p q = .error e → e = .invalidPQ) ∧
    ∀ dk, fromPrimes p q = .ok dk →
      dk.p = p ∧ dk.q = q ∧ dk.ek = .fromN (p * q : ℕ) ∧ dk.lambda = Nat.lcm (p - 1) (q - 1) ∧
      dk.lambda * dk.mu ≡ 1 [ZMOD p * q] := by
  refine ⟨⟨?_, ?_⟩, ?_, ?_⟩
  · rintro ⟨dk, h⟩
    exact (fits_of_fromPrimes hp hq h).1
  · intro h
    obtain ⟨dk, hdk, -⟩ := fromPrimes_fits hp hq h
    exact ⟨dk, hdk⟩
  · intro e he
    by_cases h : Unrelated p q
    · obtain ⟨dk, hdk, -⟩ := fromPrimes_fits hp hq h
      rw [hdk] at he
      cases he
    · rw [fromPrimes_of_related hp hq h] at he
      cases he
      rfl
  · intro dk h
    obtain ⟨-, hdkp, hdkq, hfits⟩ := fits_of_fromPrimes hp hq h
    have hinv := hfits.trapdoor.inv
    rw [← hfits.lambda, Nat.cast_mul] at hinv
    exact ⟨hdkp, hdkq, hfits.ek, hfits.lambda, hinv⟩

theorem unrelated_three_five : Unrelated 3 5 := ⟨by decide, by decide, by decide⟩

theorem DecryptionKey.fromPrimes_primes_three_five :
    (∃ dk, fromPrimes (3 : ℕ) (5 : ℕ) = .ok dk) ∧ fromPrimes (3 : ℕ) (7 : ℕ) = .error .invalidPQ := by
  apply And.intro
  · exact (fromPrimes_primes Nat.prime_three Nat.prime_five).1.2 unrelated_three_five
  · have hnone := (fromPrimes_primes Nat.prime_three (by decide : Nat.Prime 7))
    cases h : fromPrimes (3 : ℕ) (7 : ℕ) with
    | ok dk => exact absurd (hnone.1.1 ⟨dk, h⟩) (by decide)
    | error e => rw [hnone.2.1 e h]

end Primes

end WalletMpc.FastPaillier
