import WalletMpc.Paillier

namespace WalletMpc.FastPaillier
open BigIntegers CrtPowers NthResidues
set_option autoImplicit true

/-- What a caller computes from ciphertexts, one call of the key for each node. -/
inductive Expr (ι : Type) where
  | input (i : ι)
  | oadd (a b : Expr ι)
  | osub (a b : Expr ι)
  | oneg (a : Expr ι)
  | omul (scalar : ℤ) (a : Expr ι)

namespace Expr

def run (key : AnyEncryptionKey) (env : ι → Ciphertext) : Expr ι → Except Reason Ciphertext
  | input i => .ok (env i)
  | oadd a b => do key.oadd (← a.run key env) (← b.run key env)
  | osub a b => do key.osub (← a.run key env) (← b.run key env)
  | oneg a => do key.oneg (← a.run key env)
  | omul scalar a => do key.omul scalar (← a.run key env)

/-- The same expression on the plaintexts. -/
def value (plain : ι → Plaintext) : Expr ι → ℤ
  | input i => plain i
  | oadd a b => a.value plain + b.value plain
  | osub a b => a.value plain - b.value plain
  | oneg a => -a.value plain
  | omul scalar a => scalar * a.value plain

def scalars : Expr ι → List ℤ
  | input _ => []
  | oadd a b => a.scalars ++ b.scalars
  | osub a b => a.scalars ++ b.scalars
  | oneg a => a.scalars
  | omul scalar a => scalar :: a.scalars

end Expr

section Operations

variable {dk : DecryptionKey} {N lam : ℕ}

theorem Carries.coprime (h : Carries N c m) : IsCoprime c (N * N) := h.2.coprime

theorem Carries.nonneg (h : Carries N c m) : 0 ≤ c := (inMultGroup_iff.1 h.1).1.le

theorem EncryptionKey.oadd_carries (hN : 1 < N) (h1 : Carries N c1 m1) (h2 : Carries N c2 m2) :
    ∃ c, (fromN N).oadd c1 c2 = .ok c ∧ Carries N c (m1 + m2) := by
  refine ⟨c1 * c2 % (N * N), ?_, carries_emod hN (h1.2.mul h2.2)⟩
  rw [oadd, fromN_nn, h1.1, h2.1, if_neg (by decide),
    Int.tmod_eq_emod_of_nonneg (Int.mul_nonneg h1.nonneg h2.nonneg)]

/-- Negation takes any representative of a ciphertext. -/
theorem EncryptionKey.oneg_carries (hN : 1 < N) (h : Opens N c m) :
    ∃ c', (fromN N).oneg c = .ok c' ∧ Carries N c' (-m) := by
  obtain ⟨c', hc', hmul, hle, hlt⟩ := exists_invert (square_pos (Nat.lt_of_succ_lt hN)) h.coprime
  have hcarries := carries_emod hN (h.inv hmul)
  rw [Int.emod_eq_of_lt hle hlt] at hcarries
  refine ⟨c', ?_, hcarries⟩
  rw [oneg, fromN_nn, hc']
  rfl

theorem EncryptionKey.osub_carries (hN : 1 < N) (h1 : Carries N c1 m1) (h2 : Opens N c2 m2) :
    ∃ c, (fromN N).osub c1 c2 = .ok c ∧ Carries N c (m1 - m2) := by
  obtain ⟨c', hc', hcarries⟩ := oneg_carries hN h2
  refine ⟨c1 * c' % (N * N), ?_, ?_⟩
  · rw [osub, fromN_nn, h1.1, if_neg (by decide), hc']
    show Except.ok _ = _
    rw [Int.tmod_eq_emod_of_nonneg (Int.mul_nonneg h1.nonneg hcarries.nonneg)]
  · rw [Int.sub_eq_add_neg]
    exact carries_emod hN (h1.2.mul hcarries.2)

theorem EncryptionKey.omul_carries (hN : 1 < N) (hs : inMultGroupAbs s N = true)
    (h : Carries N c m) : ∃ c', (fromN N).omul s c = .ok c' ∧ Carries N c' (s * m) := by
  have hpos := square_pos (Nat.lt_of_succ_lt hN)
  have hpow : ∃ c', powMod c s (N * N) = some c' ∧ Carries N c' (s * m) := by
    rcases Int.lt_or_le s 0 with hneg | hle
    · obtain ⟨d, hd, hmul, -, -⟩ := exists_invert hpos h.coprime
      refine ⟨d ^ (-s).toNat % (N * N), ?_, ?_⟩
      · rw [powMod_of_neg hneg, hd, Option.map_some]
      · have hopens := (h.2.inv hmul).pow (-s).toNat
        rw [Int.toNat_of_nonneg (by omega), neg_mul_neg] at hopens
        exact carries_emod hN hopens
    · refine ⟨c ^ s.toNat % (N * N), powMod_of_nonneg hle, ?_⟩
      have hopens := h.2.pow s.toNat
      rw [Int.toNat_of_nonneg hle] at hopens
      exact carries_emod hN hopens
  obtain ⟨c', hc', hcarries⟩ := hpow
  refine ⟨c', ?_, hcarries⟩
  rw [omul, fromN_n, fromN_nn, hs, h.1, if_neg (by decide), hc']
  rfl

/-- The two keys of one owner: the public one and the secret one. -/
def AnyEncryptionKey.Of (dk : DecryptionKey) (key : AnyEncryptionKey) : Prop :=
  key = .encryption dk.ek ∨ key = .decryption dk

theorem AnyEncryptionKey.Of.encryptionKey {key : AnyEncryptionKey} (hkey : key.Of dk) :
    key.encryptionKey = dk.ek := by
  rcases hkey with rfl | rfl
  · rfl
  · rfl

theorem AnyEncryptionKey.Of.omul {key : AnyEncryptionKey} (h : dk.Fits N lam) (hkey : key.Of dk)
    (s c : ℤ) : key.omul s c = dk.ek.omul s c := by
  rcases hkey with rfl | rfl
  · rfl
  · exact h.omul s c

theorem AnyEncryptionKey.Of.encryptWith {key : AnyEncryptionKey} (h : dk.Fits N lam)
    (hkey : key.Of dk) (x r : ℤ) : key.encryptWith x r = dk.ek.encryptWith x r := by
  rcases hkey with rfl | rfl
  · rfl
  · exact h.encryptWith x r

variable {key : AnyEncryptionKey} {env : ι → Ciphertext} {plain : ι → Plaintext}

/-- One call for each node, and each keeps the value of its subexpression. -/
theorem Expr.run_carries (h : dk.Fits N lam) (hkey : key.Of dk)
    (henv : ∀ i, Carries N (env i) (plain i)) (e : Expr ι)
    (hs : ∀ s ∈ e.scalars, inMultGroupAbs s N = true) :
    ∃ c, e.run key env = .ok c ∧ Carries N c (e.value plain) := by
  have hek : key.encryptionKey = .fromN N := hkey.encryptionKey.trans h.ek
  induction e with
  | input i => exact ⟨env i, rfl, henv i⟩
  | oadd a b iha ihb =>
    obtain ⟨hsa, hsb⟩ := List.forall_mem_append.1 hs
    obtain ⟨c1, hc1, h1⟩ := iha hsa
    obtain ⟨c2, hc2, h2⟩ := ihb hsb
    obtain ⟨c, hc, hcarries⟩ := EncryptionKey.oadd_carries h.one_lt h1 h2
    refine ⟨c, ?_, hcarries⟩
    rw [run, hc1, hc2, ← hc, ← hek]
    rfl
  | osub a b iha ihb =>
    obtain ⟨hsa, hsb⟩ := List.forall_mem_append.1 hs
    obtain ⟨c1, hc1, h1⟩ := iha hsa
    obtain ⟨c2, hc2, h2⟩ := ihb hsb
    obtain ⟨c, hc, hcarries⟩ := EncryptionKey.osub_carries h.one_lt h1 h2.2
    refine ⟨c, ?_, hcarries⟩
    rw [run, hc1, hc2, ← hc, ← hek]
    rfl
  | oneg a iha =>
    obtain ⟨c1, hc1, h1⟩ := iha hs
    obtain ⟨c, hc, hcarries⟩ := EncryptionKey.oneg_carries h.one_lt h1.2
    refine ⟨c, ?_, hcarries⟩
    rw [run, hc1, ← hc, ← hek]
    rfl
  | omul s a iha =>
    obtain ⟨hscalar, hsa⟩ := List.forall_mem_cons.1 hs
    obtain ⟨c1, hc1, h1⟩ := iha hsa
    obtain ⟨c, hc, hcarries⟩ := EncryptionKey.omul_carries h.one_lt hscalar h1
    refine ⟨c, ?_, hcarries⟩
    rw [run, hc1, ← hc, ← h.ek, ← hkey.omul h]
    rfl

/-- The first scalar outside the group stops the evaluation. -/
theorem Expr.run_error (h : dk.Fits N lam) (hkey : key.Of dk)
    (henv : ∀ i, Carries N (env i) (plain i)) (e : Expr ι)
    (hs : ¬ ∀ s ∈ e.scalars, inMultGroupAbs s N = true) : e.run key env = .error .ops := by
  induction e with
  | input i => exact absurd (List.forall_mem_nil _) hs
  | oadd a b iha ihb =>
    by_cases hsa : ∀ s ∈ a.scalars, inMultGroupAbs s N = true
    · obtain ⟨c1, hc1, -⟩ := a.run_carries h hkey henv hsa
      rw [run, hc1, ihb fun hsb => hs (List.forall_mem_append.2 ⟨hsa, hsb⟩)]
      rfl
    · rw [run, iha hsa]
      rfl
  | osub a b iha ihb =>
    by_cases hsa : ∀ s ∈ a.scalars, inMultGroupAbs s N = true
    · obtain ⟨c1, hc1, -⟩ := a.run_carries h hkey henv hsa
      rw [run, hc1, ihb fun hsb => hs (List.forall_mem_append.2 ⟨hsa, hsb⟩)]
      rfl
    · rw [run, iha hsa]
      rfl
  | oneg a iha =>
    rw [run, iha hs]
    rfl
  | omul s a iha =>
    by_cases hsa : ∀ s ∈ a.scalars, inMultGroupAbs s N = true
    · obtain ⟨c1, hc1, -⟩ := a.run_carries h hkey henv hsa
      have hscalar : inMultGroupAbs s N = false := Bool.eq_false_of_not_eq_true fun hin =>
        hs (List.forall_mem_cons.2 ⟨hin, hsa⟩)
      rw [run, hc1]
      show key.omul s c1 = _
      rw [hkey.omul h, h.ek, EncryptionKey.omul, EncryptionKey.fromN_n, hscalar]
      rfl
    · rw [run, iha hsa]
      rfl

end Operations

/-- A secret key is as good as its public key for every method of the trait. -/
theorem AnyEncryptionKey.interchangeable {p q : ℕ} (hp : p.Prime) (hq : q.Prime)
    (h : DecryptionKey.fromPrimes p q = .ok dk) :
    (∀ x r, (decryption dk).encryptWith x r = (encryption dk.ek).encryptWith x r) ∧
    (∀ s c, (decryption dk).omul s c = (encryption dk.ek).omul s c) ∧
    (∀ draws x,
      (decryption dk).encryptWithRandom draws x = (encryption dk.ek).encryptWithRandom draws x) ∧
    ∀ {ι : Type} (env : ι → Ciphertext) (e : Expr ι),
      e.run (decryption dk) env = e.run (encryption dk.ek) env := by
  obtain ⟨-, -, -, hfits⟩ := DecryptionKey.fits_of_fromPrimes hp hq h
  refine ⟨hfits.encryptWith, hfits.omul, fun draws x => ?_, fun env e => ?_⟩
  · refine congrArg (Option.map · _) (funext fun drawn => ?_)
    exact congrArg (fun res => (Except.map _ res, drawn.2)) (hfits.encryptWith x drawn.1)
  · induction e with
    | input i => rfl
    | oadd a b iha ihb =>
      rw [Expr.run, Expr.run, iha, ihb]
      rfl
    | osub a b iha ihb =>
      rw [Expr.run, Expr.run, iha, ihb]
      rfl
    | oneg a iha =>
      rw [Expr.run, Expr.run, iha]
      rfl
    | omul s a iha =>
      rw [Expr.run, Expr.run, iha]
      exact congrArg (_ >>= ·) (funext fun c => hfits.omul s c)

theorem AnyEncryptionKey.interchangeable_three_five :
    ∃ dk, DecryptionKey.fromPrimes (3 : ℕ) (5 : ℕ) = .ok dk ∧
      (decryption dk).omul (-2) 31 = (encryption dk.ek).omul (-2) 31 := by
  obtain ⟨dk, h, -⟩ := DecryptionKey.exists_three_five
  exact ⟨dk, h, (interchangeable Nat.prime_three Nat.prime_five h).2.1 (-2) 31⟩

/-- Whatever is computed from ciphertexts decrypts to the same expression of their plaintexts,
brought back into the signed group; only a scalar outside the group is refused. -/
theorem Expr.decrypt_run {p q : ℕ} {key : AnyEncryptionKey} {env : ι → Ciphertext}
    {plain : ι → Plaintext} (hp : p.Prime) (hq : q.Prime)
    (h : DecryptionKey.fromPrimes p q = .ok dk)
    (hkey : key = .encryption dk.ek ∨ key = .decryption dk)
    (henv : ∀ i, dk.decrypt (env i) = .ok (plain i)) (e : Expr ι) :
    ((∀ s ∈ e.scalars, inMultGroupAbs s dk.ek.n = true) →
      ∃ c, e.run key env = .ok c ∧ dk.decrypt c = .ok ((e.value plain).bmod (p * q))) ∧
    ((∃ s ∈ e.scalars, inMultGroupAbs s dk.ek.n = false) → e.run key env = .error .ops) := by
  obtain ⟨-, -, -, hfits⟩ := DecryptionKey.fits_of_fromPrimes hp hq h
  have hcarries := fun i => hfits.carries_of_decrypt (henv i)
  rw [hfits.ek, EncryptionKey.fromN_n]
  apply And.intro
  · intro hs
    obtain ⟨c, hc, hval⟩ := e.run_carries hfits hkey hcarries hs
    exact ⟨c, hc, hfits.decrypt_of_carries hval⟩
  · rintro ⟨s, hmem, hs⟩
    refine e.run_error hfits hkey hcarries fun hall => ?_
    rw [hall s hmem] at hs
    cases hs

theorem Expr.decrypt_run_three_five : ∃ dk c, DecryptionKey.fromPrimes (3 : ℕ) (5 : ℕ) = .ok dk ∧
    (osub (omul 2 (input ())) (oneg (input ()))).run (.decryption dk) (fun _ => 31) = .ok c ∧
    dk.decrypt c = .ok 6 := by
  obtain ⟨dk, h, hfits, hdecrypt⟩ := DecryptionKey.exists_three_five
  have hscalars : ∀ s ∈ (osub (omul 2 (input ())) (oneg (input ()))).scalars,
      inMultGroupAbs s dk.ek.n = true := by
    rw [hfits.ek]
    decide
  obtain ⟨c, hc, hval⟩ := (decrypt_run Nat.prime_three Nat.prime_five h (.inr rfl)
    (fun _ => hdecrypt) (osub (omul 2 (input ())) (oneg (input ())))).1 hscalars
  exact ⟨dk, c, h, hc, hval⟩

/-- Encryption with a random nonce takes the first draw in the group and hides the plaintext
with it, for every sequence of draws. -/
theorem AnyEncryptionKey.encryptWithRandom_eq {p q : ℕ} {key : AnyEncryptionKey}
    (hp : p.Prime) (hq : q.Prime) (h : DecryptionKey.fromPrimes p q = .ok dk)
    (hkey : key = .encryption dk.ek ∨ key = .decryption dk) (draws : List ℤ) (x : Plaintext) :
    (key.encryptWithRandom draws x = none ↔ ∀ y ∈ draws, inMultGroup y dk.ek.n = false) ∧
    ∀ result rest, key.encryptWithRandom draws x = some (result, rest) →
      ∃ skipped r, draws = skipped ++ r :: rest ∧ (∀ y ∈ skipped, inMultGroup y dk.ek.n = false) ∧
        inMultGroup r dk.ek.n = true ∧
        if dk.ek.inSignedGroup x then ∃ c, result = .ok (c, r) ∧ dk.decrypt c = .ok x
        else result = .error .encrypt := by
  obtain ⟨-, -, -, hfits⟩ := DecryptionKey.fits_of_fromPrimes hp hq h
  have hek : key.encryptionKey = dk.ek := AnyEncryptionKey.Of.encryptionKey hkey
  rw [encryptWithRandom, hek]
  apply And.intro
  · rw [Option.map_eq_none_iff, sampleInMultGroup_eq_none_iff]
  · intro result rest hsome
    obtain ⟨⟨r, rest'⟩, hsample, hresult⟩ := Option.map_eq_some_iff.1 hsome
    cases hresult
    obtain ⟨hr, skipped, hdraws, hskipped⟩ := sampleInMultGroup_eq hsample
    refine ⟨skipped, r, hdraws, hskipped, hr, ?_⟩
    rw [AnyEncryptionKey.Of.encryptWith hfits hkey]
    rw [hfits.ek, EncryptionKey.fromN_n] at hr
    split
    · next hx =>
      obtain ⟨c, hc, hdecrypt⟩ := hfits.exists_encryptWith hx hr
      rw [hc]
      exact ⟨c, rfl, hdecrypt⟩
    · next hx =>
      rw [hfits.encryptWith_of_out fun hin => hx hin.1]
      rfl

/-- No draw is in the group; the first is not and the second is. -/
theorem AnyEncryptionKey.encryptWithRandom_eq_three_five :
    ∃ dk, DecryptionKey.fromPrimes (3 : ℕ) (5 : ℕ) = .ok dk ∧
      (decryption dk).encryptWithRandom [0, 6] 2 = none ∧
      ∃ c, (decryption dk).encryptWithRandom [6, 7, 8] 2 = some (.ok (c, 7), [8]) ∧
        dk.decrypt c = .ok 2 := by
  obtain ⟨dk, h, hfits, -⟩ := DecryptionKey.exists_three_five
  have heq := encryptWithRandom_eq Nat.prime_three Nat.prime_five h (.inr rfl)
  refine ⟨dk, h, (heq [0, 6] 2).1.2 ?_, ?_⟩
  · rw [hfits.ek]
    decide
  · have hsample : sampleInMultGroup dk.ek.n [6, 7, 8] = some (7, [8]) := by
      rw [hfits.ek]
      decide
    obtain ⟨result, hrun⟩ : ∃ result,
        (decryption dk).encryptWithRandom [6, 7, 8] 2 = some (result, [8]) := by
      refine ⟨_, Option.map_eq_some_iff.2 ⟨_, hsample, rfl⟩⟩
    obtain ⟨skipped, r, hdraws, -, -, hresult⟩ := (heq [6, 7, 8] 2).2 result [8] hrun
    obtain ⟨-, hr⟩ : [6] = skipped ∧ [7, 8] = [r, 8] := List.append_inj' hdraws rfl
    cases hr
    rw [if_pos (by rw [hfits.ek]; decide)] at hresult
    obtain ⟨c, rfl, hc⟩ := hresult
    exact ⟨c, hrun, hc⟩

end WalletMpc.FastPaillier
