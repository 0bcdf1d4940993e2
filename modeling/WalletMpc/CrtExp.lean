import WalletMpc.CrtPowers
import WalletMpc.BigIntegers

namespace WalletMpc.FastPaillier
open BigIntegers CrtPowers
set_option autoImplicit true

def inMultGroup (x n : ℤ) : Bool := decide (0 < x) && decide (x < n) && decide (Int.gcd x n = 1)

def inMultGroupAbs (x n : ℤ) : Bool := decide (|x| < |n|) && decide (Int.gcd x n = 1)

/-- The draws below `n` are given, and what is left of them is returned; `none` is a loop that
still waits for one that is prime to `n`. -/
def sampleInMultGroup (n : ℤ) : List ℤ → Option (ℤ × List ℤ)
  | [] => none
  | x :: draws => if inMultGroup x n then some (x, draws) else sampleInMultGroup n draws

/-- `beta` is the inverse of `n1` modulo `n2`. -/
structure CrtExp where
  n : ℤ
  n1 : ℤ
  phiN1 : ℤ
  n2 : ℤ
  phiN2 : ℤ
  beta : ℤ
  n_eq : n = n1 * n2
  n1_pos : 0 < n1
  n2_pos : 0 < n2
  phiN1_pos : 0 < phiN1
  phiN2_pos : 0 < phiN2
  beta_inv : n1 * beta ≡ 1 [ZMOD n2]

structure Exponent where
  eModPhiPp : ℤ
  eModPhiQq : ℤ
  isNegative : Bool
  eModPhiPp_nonneg : 0 ≤ eModPhiPp
  eModPhiQq_nonneg : 0 ≤ eModPhiQq

def CrtExp.build (n1 phiN1 n2 phiN2 : ℤ) : Option CrtExp :=
  if h : n1 ≤ 0 ∨ n2 ≤ 0 ∨ phiN1 ≤ 0 ∨ phiN2 ≤ 0 ∨ n1 ≤ phiN1 ∨ n2 ≤ phiN2 then none
  else
    match hb : invert n1 n2 with
    | none => none
    | some beta => some {
        n := n1 * n2, n1, phiN1, n2, phiN2, beta
        n_eq := rfl
        n1_pos := by omega
        n2_pos := by omega
        phiN1_pos := by omega
        phiN2_pos := by omega
        beta_inv := ((invert_eq_some_iff (by omega)).1 hb).1 }

def CrtExp.buildN (p q : ℤ) : Option CrtExp := build p (p - 1) q (q - 1)

def CrtExp.buildNn (p q : ℤ) : Option CrtExp :=
  let pp := p * p
  let qq := q * q
  build pp (pp - p) qq (qq - q)

def CrtExp.prepareExponent (crt : CrtExp) (e : ℤ) : Exponent :=
  let negE := -e
  let isNegative := decide (e < 0)
  let e := if isNegative then negE else e
  { eModPhiPp := e % crt.phiN1
    eModPhiQq := e % crt.phiN2
    isNegative
    eModPhiPp_nonneg := Int.emod_nonneg _ crt.phiN1_pos.ne'
    eModPhiQq_nonneg := Int.emod_nonneg _ crt.phiN2_pos.ne' }

/-- Each `expect` is answered by the exponent, which is not negative. -/
def CrtExp.exp (crt : CrtExp) (x : ℤ) (e : Exponent) : Option ℤ :=
  let s1 := x % crt.n1
  let s2 := x % crt.n2
  let r1 := (powMod s1 e.eModPhiPp crt.n1).get (powMod_isSome e.eModPhiPp_nonneg)
  let r2 := (powMod s2 e.eModPhiQq crt.n2).get (powMod_isSome e.eModPhiQq_nonneg)
  let result := (r2 - r1) * crt.beta % crt.n2 * crt.n1 + r1
  if e.isNegative then invert result crt.n else some result

theorem inMultGroup_iff : inMultGroup x n = true ↔ 0 < x ∧ x < n ∧ IsCoprime x n := by
  rw [inMultGroup, Bool.and_eq_true, Bool.and_eq_true, decide_eq_true_iff, decide_eq_true_iff,
    decide_eq_true_iff, Int.isCoprime_iff_gcd_eq_one, and_assoc]

theorem inMultGroup_emod {n : ℤ} (hn : 1 < n) (h : IsCoprime (x % n) n) :
    inMultGroup (x % n) n = true := by
  refine inMultGroup_iff.2 ⟨?_, Int.emod_lt_of_pos x (by omega), h⟩
  refine lt_of_le_of_ne (Int.emod_nonneg x (by omega)) fun hzero => ?_
  rw [← hzero, isCoprime_zero_left, Int.isUnit_iff] at h
  omega

/-- The draw that is taken is the first one in the group. -/
theorem sampleInMultGroup_eq (h : sampleInMultGroup n draws = some (x, rest)) :
    inMultGroup x n = true ∧
      ∃ skipped, draws = skipped ++ x :: rest ∧ ∀ y ∈ skipped, inMultGroup y n = false := by
  induction draws with
  | nil => cases h
  | cons y draws ih =>
    rw [sampleInMultGroup] at h
    split at h
    · next hy =>
      cases h
      exact ⟨hy, [], rfl, List.forall_mem_nil _⟩
    · next hy =>
      obtain ⟨hx, skipped, rfl, hskipped⟩ := ih h
      have hfirst := Bool.eq_false_of_not_eq_true hy
      exact ⟨hx, y :: skipped, rfl, List.forall_mem_cons.2 ⟨hfirst, hskipped⟩⟩

theorem sampleInMultGroup_eq_none_iff :
    sampleInMultGroup n draws = none ↔ ∀ y ∈ draws, inMultGroup y n = false := by
  induction draws with
  | nil => exact iff_of_true rfl (List.forall_mem_nil _)
  | cons y draws ih =>
    rw [sampleInMultGroup, List.forall_mem_cons]
    split
    · next hy => exact iff_of_false (Option.some_ne_none _) fun h => by simp [hy] at h
    · next hy => rw [ih, and_iff_right (Bool.eq_false_of_not_eq_true hy)]

theorem CrtExp.build_eq_some {n1 phiN1 n2 phiN2 : ℤ}
    (h : build n1 phiN1 n2 phiN2 = some crt) :
    crt.n1 = n1 ∧ crt.phiN1 = phiN1 ∧ crt.n2 = n2 ∧ crt.phiN2 = phiN2 := by
  unfold build at h
  split at h
  · cases h
  · split at h
    · cases h
    · cases h
      exact ⟨rfl, rfl, rfl, rfl⟩

theorem CrtExp.build_isSome_iff {n1 phiN1 n2 phiN2 : ℤ} :
    (build n1 phiN1 n2 phiN2).isSome ↔
      (0 < phiN1 ∧ phiN1 < n1) ∧ (0 < phiN2 ∧ phiN2 < n2) ∧ IsCoprime n1 n2 := by
  unfold build
  split
  · next h => exact iff_of_false Bool.false_ne_true (by omega)
  · next h =>
    split
    · next hb => exact iff_of_false Bool.false_ne_true fun hc => invert_eq_none_iff.1 hb hc.2.2
    · next hb =>
      have hc : IsCoprime n1 n2 := by
        by_contra hc
        rw [invert_eq_none_iff.2 hc] at hb
        cases hb
      exact iff_of_true rfl ⟨by omega, by omega, hc⟩

/-- What the two residues of a fast power are combined to. -/
theorem CrtExp.exists_exp (crt : CrtExp) (x : ℤ) (e : Exponent) :
    ∃ r, crt.exp x e = (if e.isNegative then invert r crt.n else some r) ∧ 0 ≤ r ∧ r < crt.n ∧
      r ≡ x ^ e.eModPhiPp.toNat [ZMOD crt.n1] ∧ r ≡ x ^ e.eModPhiQq.toNat [ZMOD crt.n2] := by
  have hr : ∀ n e, (x % n) ^ e % n ≡ x ^ e [ZMOD n] := fun n e =>
    (Int.mod_modEq _ _).trans ((Int.mod_modEq x n).pow e)
  refine ⟨combine crt.n1 crt.n2 crt.beta ((x % crt.n1) ^ e.eModPhiPp.toNat % crt.n1)
    ((x % crt.n2) ^ e.eModPhiQq.toNat % crt.n2), ?_, ?_, ?_, ?_, ?_⟩
  · simp only [exp, powMod_of_nonneg e.eModPhiPp_nonneg, powMod_of_nonneg e.eModPhiQq_nonneg,
      Option.get_some, combine]
  · exact combine_nonneg crt.n1_pos crt.n2_pos (Int.emod_nonneg _ crt.n1_pos.ne')
  · rw [crt.n_eq]
    exact combine_lt crt.n1_pos crt.n2_pos (Int.emod_lt_of_pos _ crt.n1_pos)
  · exact combine_modEq_left.trans (hr crt.n1 _)
  · exact (combine_modEq_right crt.beta_inv).trans (hr crt.n2 _)

theorem CrtExp.n_pos (crt : CrtExp) : 0 < crt.n := by
  rw [crt.n_eq]
  exact Int.mul_pos crt.n1_pos crt.n2_pos

theorem CrtExp.coprime (crt : CrtExp) : IsCoprime crt.n1 crt.n2 := by
  obtain ⟨k, hk⟩ := crt.beta_inv.dvd
  exact ⟨crt.beta, k, by linear_combination -hk⟩

theorem natAbs_emod_toNat (e : ℤ) (hpos : 0 < φ) :
    ((if decide (e < 0) then -e else e) % φ).toNat = e.natAbs % φ.toNat := by
  obtain ⟨k, rfl⟩ := Int.eq_ofNat_of_zero_le hpos.le
  have habs : (if decide (e < 0) then -e else e) = (e.natAbs : ℤ) := by
    by_cases he : e < 0
    · rw [if_pos (decide_eq_true he)]
      omega
    · rw [if_neg (by rwa [decide_eq_true_eq])]
      omega
  rw [habs, Int.toNat_natCast, ← Int.natCast_mod, Int.toNat_natCast]

theorem CrtExp.exists_exp_prepared (crt : CrtExp) (x e : ℤ) :
    ∃ r, crt.exp x (crt.prepareExponent e) = (if e < 0 then invert r crt.n else some r) ∧
      0 ≤ r ∧ r < crt.n ∧ r ≡ x ^ (e.natAbs % crt.phiN1.toNat) [ZMOD crt.n1] ∧
      r ≡ x ^ (e.natAbs % crt.phiN2.toNat) [ZMOD crt.n2] := by
  obtain ⟨r, hr, hle, hlt, h1, h2⟩ := crt.exists_exp x (crt.prepareExponent e)
  have hneg : ((crt.prepareExponent e).isNegative = true) = (e < 0) := decide_eq_true_eq
  have hpp : (crt.prepareExponent e).eModPhiPp.toNat = e.natAbs % crt.phiN1.toNat :=
    natAbs_emod_toNat e crt.phiN1_pos
  have hqq : (crt.prepareExponent e).eModPhiQq.toNat = e.natAbs % crt.phiN2.toNat :=
    natAbs_emod_toNat e crt.phiN2_pos
  rw [hpp] at h1
  rw [hqq] at h2
  simp only [hneg] at hr
  exact ⟨r, hr, hle, hlt, h1, h2⟩

/-- On a unit the fast power is the plain one, whatever the exponent. -/
theorem CrtExp.exp_eq_powMod (crt : CrtExp) (h1 : Kills crt.n1 crt.phiN1.toNat)
    (h2 : Kills crt.n2 crt.phiN2.toNat) (hx : IsCoprime x crt.n) (e : ℤ) :
    crt.exp x (crt.prepareExponent e) = powMod x e crt.n := by
  obtain ⟨r, hr, hle, hlt, hr1, hr2⟩ := crt.exists_exp_prepared x e
  have hx' := hx
  rw [crt.n_eq] at hx'
  have hpow : r ≡ x ^ e.natAbs % crt.n [ZMOD crt.n] := by
    refine Int.ModEq.trans ?_ (Int.mod_modEq _ _).symm
    rw [crt.n_eq]
    exact modEq_mul crt.coprime (hr1.trans (h1.pow_mod hx'.of_mul_right_left _))
      (hr2.trans (h2.pow_mod hx'.of_mul_right_right _))
  have heq := eq_of_modEq hpow hle hlt (Int.emod_nonneg _ crt.n_pos.ne')
    (Int.emod_lt_of_pos _ crt.n_pos)
  rw [hr, powMod_eq crt.n_pos, heq]

theorem kills_totient_toNat (n : ℕ) : Kills n (n.totient : ℤ).toNat := by
  rw [Int.toNat_natCast]
  exact kills_totient n

/-- Given the totients, two coprime moduli are what `build` asks for, and the fast power of a
unit is the plain one for every exponent. -/
theorem CrtExp.build_totients (n1 n2 : ℕ) :
    ((build n1 n1.totient n2 n2.totient).isSome ↔ 1 < n1 ∧ 1 < n2 ∧ Nat.Coprime n1 n2) ∧
    ∀ crt, build n1 n1.totient n2 n2.totient = some crt →
      ∀ x e : ℤ, IsCoprime x (n1 * n2) →
        crt.exp x (crt.prepareExponent e) = powMod x e (n1 * n2) := by
  have hlt : ∀ n : ℕ, 0 < (n.totient : ℤ) ∧ (n.totient : ℤ) < n ↔ 1 < n := by
    intro n
    rw [Int.natCast_pos, Nat.cast_lt, Nat.totient_pos]
    apply Iff.intro
    · rintro ⟨hpos, hlt⟩
      by_contra hle
      obtain rfl : n = 1 := by omega
      exact absurd hlt (by decide)
    · intro h
      exact ⟨by omega, Nat.totient_lt n h⟩
  apply And.intro
  · rw [build_isSome_iff, hlt, hlt, Nat.isCoprime_iff_coprime]
  · intro crt h x e hx
    obtain ⟨hn1, hphi1, hn2, hphi2⟩ := build_eq_some h
    have hn := crt.n_eq
    rw [hn1, hn2] at hn
    rw [← hn] at hx ⊢
    apply crt.exp_eq_powMod _ _ hx
    · rw [hn1, hphi1]
      exact kills_totient_toNat n1
    · rw [hn2, hphi2]
      exact kills_totient_toNat n2

/-- Outside the units the exponents of a product of two primes are not interchangeable: where the
fast power goes wrong. -/
theorem CrtExp.buildN_exp_iff {p q : ℕ} (hp : p.Prime) (hq : q.Prime)
    (h : buildN p q = some crt) (x : ℤ) (k : ℕ) :
    crt.exp x (crt.prepareExponent k) = powMod x k (p * q) ↔
      ¬ (0 < k ∧ ((p : ℤ) ∣ x ∧ p - 1 ∣ k ∨ (q : ℤ) ∣ x ∧ q - 1 ∣ k)) := by
  obtain ⟨hn1, hphi1, hn2, hphi2⟩ := build_eq_some h
  have hn := crt.n_eq
  rw [hn1, hn2] at hn
  have hphi : ∀ n : ℕ, ((n : ℤ) - 1).toNat = n - 1 := fun n => by omega
  obtain ⟨r, hr, hle, hlt, hr1, hr2⟩ := crt.exists_exp_prepared x k
  rw [if_neg (Int.not_lt.2 (Int.natCast_nonneg k))] at hr
  rw [hn1, hphi1, hphi, Int.natAbs_natCast] at hr1
  rw [hn2, hphi2, hphi, Int.natAbs_natCast] at hr2
  have hpow : crt.exp x (crt.prepareExponent k) = powMod x k (p * q) ↔ r ≡ x ^ k [ZMOD crt.n] := by
    rw [hr, ← hn, powMod_of_nonneg (Int.natCast_nonneg k), Int.toNat_natCast, Option.some.injEq,
      Int.ModEq, Int.emod_eq_of_lt hle hlt]
  have hcop := crt.coprime
  rw [hn1, hn2] at hcop
  have hboth : r ≡ x ^ k [ZMOD crt.n] ↔
      x ^ (k % (p - 1)) ≡ x ^ k [ZMOD p] ∧ x ^ (k % (q - 1)) ≡ x ^ k [ZMOD q] := by
    rw [hn]
    apply Iff.intro
    · intro hmod
      exact ⟨hr1.symm.trans (hmod.of_mul_right _), hr2.symm.trans (hmod.of_mul_left _)⟩
    · rintro ⟨h1, h2⟩
      exact modEq_mul hcop (hr1.trans h1) (hr2.trans h2)
  rw [hpow, hboth, pow_mod_prime_iff hp, pow_mod_prime_iff hq, ← not_or, ← and_or_left]

theorem CrtExp.buildN_exp_iff_three_five : ∃ crt, buildN (3 : ℕ) (5 : ℕ) = some crt ∧
    (crt.exp 6 (crt.prepareExponent (4 : ℕ)) = powMod 6 (4 : ℕ) ((3 : ℕ) * (5 : ℕ)) ↔
      ¬ (0 < 4 ∧ (((3 : ℕ) : ℤ) ∣ 6 ∧ 3 - 1 ∣ 4 ∨ ((5 : ℕ) : ℤ) ∣ 6 ∧ 5 - 1 ∣ 4))) := by
  have hsome : (buildN (3 : ℕ) (5 : ℕ)).isSome :=
    build_isSome_iff.2 ⟨by decide, by decide, by decide⟩
  obtain ⟨crt, h⟩ := Option.isSome_iff_exists.1 hsome
  exact ⟨crt, h, buildN_exp_iff Nat.prime_three Nat.prime_five h 6 4⟩

end WalletMpc.FastPaillier
