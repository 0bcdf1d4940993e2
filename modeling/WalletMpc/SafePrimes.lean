import Mathlib
import WalletMpc.Checked
import WalletMpc.Progressions

namespace WalletMpc.FastPaillier
open Progressions
set_option autoImplicit true

/-- An entry of the table `SMALL_PRIMES`, whose last one is 4256233. -/
abbrev SmallPrime := {p : Nat // p.Prime ∧ p ≤ 4256233}

def sieveSize : Nat := 500000

/-- The answers of `is_probably_prime`. -/
inductive IsPrime where
  | no
  | probably
  | yes
deriving DecidableEq, Repr

def IsPrime.accepted : IsPrime → Bool
  | .yes | .probably => true
  | .no => false

/-- The `i`-th cells of the table and of the two arrays of offsets. -/
structure Lane where
  p : SmallPrime
  offsetX : Nat
  offset2x : Nat

/-- `neg_rem` and `neg_val`: what is missing to the next multiple of `p`. -/
def negMod (p : SmallPrime) (rem : Nat) : Option Nat :=
  if rem = 0 then some 0 else Checked.sub p rem

/-- The first offsets of one prime, the only place where a big number is divided. -/
def initialOffsets (base : Nat) (p : SmallPrime) : Option Lane :=
  if p.1 = 2 then some ⟨p, 0, 0⟩
  else do
    let rem := base % p
    let inv2 := (← Checked.add 32 p 1) >>> 1
    let negRem ← negMod p rem
    let k1 := (← Checked.mul 64 negRem inv2) % p
    let inv4 := (← Checked.mul 64 inv2 inv2) % p
    let val := (← Checked.add 32 (← Checked.mul 32 2 rem) 1) % p
    let negVal ← negMod p val
    let k2 := (← Checked.mul 64 negVal inv4) % p
    some ⟨p, k1, k2⟩

/-- `while k < SIEVE_SIZE { sieve[k] = true; k += p; }` -/
def markMultiples (p : SmallPrime) (k : Nat) (sieve : Vector Bool size) :
    Option (Vector Bool size × Nat) :=
  if h : k < size then
    match _hk : Checked.add 64 k p with
    | none => none
    | some k' => markMultiples p k' (sieve.set k true h)
  else some (sieve, k)
termination_by size - k
decreasing_by
  have hpos := p.2.1.pos
  have := (Checked.add_eq_some _hk).1
  omega

def markLane (sieve : Vector Bool size) (lane : Lane) : Option (Vector Bool size × Lane) :=
  if lane.p.1 = 2 then some (sieve, lane)
  else do
    let (sieve, k) ← markMultiples lane.p lane.offsetX sieve
    let offsetX ← Checked.sub k size
    let (sieve, k) ← markMultiples lane.p lane.offset2x sieve
    let offset2x ← Checked.sub k size
    some (sieve, ⟨lane.p, offsetX, offset2x⟩)

def markLanes (sieve : Vector Bool size) : List Lane → Option (Vector Bool size × List Lane)
  | [] => some (sieve, [])
  | lane :: lanes => do
    let (sieve, lane) ← markLane sieve lane
    let (sieve, lanes) ← markLanes sieve lanes
    some (sieve, lane :: lanes)

def markWindow (lanes : List Lane) : Option (Vector Bool sieveSize × List Lane) :=
  markLanes (Vector.replicate sieveSize false) lanes

/-- `base += 2 * SIEVE_SIZE as u32`, on a big number. -/
def moveBase (base : Nat) : Option Nat :=
  (Checked.mul 32 2 (Checked.cast 32 sieveSize)).map fun step => base + step

/-- Both primality tests that a candidate has to pass. -/
def passes (isProbablyPrime : Nat → Nat → IsPrime) (candidate : Nat) : Bool :=
  (isProbablyPrime candidate 25).accepted && (isProbablyPrime (candidate <<< 1 + 1) 25).accepted

/-- The loop over the unmarked candidates of a window, with its early return. -/
def scan (isProbablyPrime : Nat → Nat → IsPrime) (base : Nat) (sieve : Vector Bool size)
    (k : Nat) : Option (Option Nat) :=
  if h : k < size then
    if sieve[k] then scan isProbablyPrime base sieve (k + 1)
    else do
      let step ← Checked.mul 32 2 (Checked.cast 32 k)
      let candidate := base + step
      if passes isProbablyPrime candidate then some (some (candidate <<< 1 + 1))
      else scan isProbablyPrime base sieve (k + 1)
  else some none
termination_by size - k

/-- One call: the table, the answers of the primality test and of the generator, the arguments. -/
structure Call where
  smallPrimes : List SmallPrime
  isProbablyPrime : Nat → Nat → IsPrime
  randomBits : Nat → (n : Nat) → BitVec n
  bits : Nat
  amount : Nat

/-- The part of the table that the clamped `amount` selects. -/
def Call.used (c : Call) : List SmallPrime :=
  c.smallPrimes.take (min c.amount c.smallPrimes.length)

/-- The odd base made of the `i`-th random number, with bit `bits - 2` set. -/
def Call.drawBase (c : Call) (i : Nat) : Option Nat := do
  let n ← Checked.sub c.bits 1
  let top ← Checked.sub c.bits 2
  some ((c.randomBits i n).toNat ||| 2 ^ top ||| 1)

/-- The variables that live across the iterations of `loop`; `drawn` counts the random numbers. -/
structure State where
  base : Nat
  lanes : List Lane
  needInit : Bool
  drawn : Nat

def initialLanes (primes : List SmallPrime) (base : Nat) : Option (List Lane) :=
  primes.mapM (initialOffsets base)

def Call.init (c : Call) (st : State) : Option State :=
  if st.needInit then do
    let base ← c.drawBase st.drawn
    let lanes ← initialLanes c.used base
    some ⟨base, lanes, false, st.drawn + 1⟩
  else some st

inductive Status where
  | running (st : State)
  | returned (safePrime : Nat)
  | overflowed

/-- The body of `loop`. -/
def Call.iterate (c : Call) (st : State) : Option Status := do
  let st ← c.init st
  let (sieve, lanes) ← markWindow st.lanes
  match ← scan c.isProbablyPrime st.base sieve 0 with
  | some safePrime => some (.returned safePrime)
  | none => do
    let base ← moveBase st.base
    some (.running ⟨base, lanes, st.needInit || decide (c.bits ≤ base.size), st.drawn⟩)

def Call.step (c : Call) : Status → Status
  | .running st => (c.iterate st).getD .overflowed
  | s => s

def Call.start (c : Call) : State := ⟨0, c.used.map fun p => ⟨p, 0, 0⟩, true, 0⟩

/-- Where `sieve_generate_safe_primes` stands after `n` iterations. -/
def Call.after (c : Call) (n : Nat) : Status := c.step^[n] (.running c.start)

/-- A prime rules a candidate out when it divides the candidate or the safe prime over it. -/
def Strikes (p : SmallPrime) (q : Nat) : Prop := p.1 ≠ 2 ∧ (p.1 ∣ q ∨ p.1 ∣ 2 * q + 1)

/-- The offsets are the first positions of the window that the prime divides. -/
structure Lane.Aligned (base : Nat) (lane : Lane) : Prop where
  x : lane.offsetX ∈ zeros lane.p 2 base ∧ lane.offsetX < lane.p
  twoX : lane.offset2x ∈ zeros lane.p 4 (2 * base + 1) ∧ lane.offset2x < lane.p

theorem SmallPrime.lt (p : SmallPrime) : p.1 < 2 ^ 23 := by
  have := p.2.2
  omega

theorem SmallPrime.odd {p : SmallPrime} (hp : p.1 ≠ 2) : p.1 % 2 = 1 :=
  p.2.1.eq_two_or_odd.resolve_left hp

theorem SmallPrime.coprime {p : SmallPrime} (hp : p.1 ≠ 2) (n : Nat) :
    Nat.Coprime p (2 ^ n) :=
  ((Nat.coprime_primes p.2.1 Nat.prime_two).2 hp).pow_right n

theorem mem_zeros_twoX {p : SmallPrime} :
    k ∈ zeros p 4 (2 * base + 1) ↔ p.1 ∣ 2 * (base + 2 * k) + 1 := by
  rw [mem_zeros, show 2 * base + 1 + 4 * k = 2 * (base + 2 * k) + 1 by ring]

theorem sieveSize_lt : sieveSize < 2 ^ 20 := by
  rw [sieveSize]
  decide

theorem negMod_eq {p : SmallPrime} {r : Nat} (h : r < p) :
    ∃ n, negMod p r = some n ∧ n < 2 ^ 23 ∧ p.1 ∣ r + n := by
  have hp := p.lt
  by_cases hr : r = 0
  · refine ⟨0, if_pos hr, by omega, ?_⟩
    rw [hr]
    exact Nat.dvd_zero _
  · refine ⟨p - r, ?_, by omega, ?_⟩
    · rw [negMod, if_neg hr, Checked.sub_eq h.le]
    · rw [Nat.add_sub_cancel' h.le]

theorem half_modEq {p : SmallPrime} (hp : p.1 ≠ 2) : 2 * ((p.1 + 1) >>> 1) ≡ 1 [MOD p] := by
  have hodd := SmallPrime.odd hp
  have htwice : 2 * ((p.1 + 1) >>> 1) = p + 1 := by
    rw [Nat.shiftRight_one]
    omega
  rw [htwice]
  exact Nat.add_modEq_left

theorem quarter_modEq {p : SmallPrime} (hp : p.1 ≠ 2) :
    4 * ((p.1 + 1) >>> 1 * ((p.1 + 1) >>> 1) % p) ≡ 1 [MOD p] := by
  have hhalf := half_modEq hp
  calc 4 * ((p.1 + 1) >>> 1 * ((p.1 + 1) >>> 1) % p)
      ≡ 4 * ((p.1 + 1) >>> 1 * ((p.1 + 1) >>> 1)) [MOD p] :=
        (Nat.ModEq.refl 4).mul (Nat.mod_modEq _ _)
    _ = 2 * ((p.1 + 1) >>> 1) * (2 * ((p.1 + 1) >>> 1)) := by ring
    _ ≡ 1 * 1 [MOD p] := hhalf.mul hhalf

theorem initialOffsets_eq {p : SmallPrime} (base : Nat) (hp : p.1 ≠ 2) :
    ∃ lane, initialOffsets base p = some lane ∧ lane.p = p ∧ lane.Aligned base := by
  have hlt := p.lt
  have hpos := p.2.1.pos
  have hhalf : (p.1 + 1) >>> 1 < 2 ^ 23 := by
    rw [Nat.shiftRight_one]
    omega
  have hrem : base % p < p := Nat.mod_lt _ hpos
  have hval : (2 * (base % p) + 1) % p < p := Nat.mod_lt _ hpos
  obtain ⟨n1, hn1, hlt1, hdvd1⟩ := negMod_eq hrem
  obtain ⟨n2, hn2, hlt2, hdvd2⟩ := negMod_eq hval
  have hquarter : (p.1 + 1) >>> 1 * ((p.1 + 1) >>> 1) % p < 2 ^ 23 :=
    (Nat.mod_lt _ hpos).trans hlt
  refine ⟨⟨p, n1 * ((p.1 + 1) >>> 1) % p,
    n2 * ((p.1 + 1) >>> 1 * ((p.1 + 1) >>> 1) % p) % p⟩, ?_, rfl, ?_, ?_⟩
  · simp only [initialOffsets, if_neg hp, Option.bind_eq_bind,
      Checked.add_eq (by omega : p.1 + 1 < 2 ^ 32), hn1,
      Checked.mul_eq_of_widths hlt1 hhalf (by decide : 23 + 23 ≤ 64),
      Checked.mul_eq_of_widths hhalf hhalf (by decide : 23 + 23 ≤ 64),
      Checked.mul_eq (by omega : 2 * (base % p) < 2 ^ 32), Option.bind_some,
      Checked.add_eq (by omega : 2 * (base % p) + 1 < 2 ^ 32), hn2,
      Checked.mul_eq_of_widths hlt2 hquarter (by decide : 23 + 23 ≤ 64)]
  · exact ⟨mul_inv_mem_zeros (Nat.mod_modEq base p).symm hdvd1 (half_modEq hp), Nat.mod_lt _ hpos⟩
  · have hmod : 2 * base + 1 ≡ (2 * (base % p) + 1) % p [MOD p] := calc
      2 * base + 1 ≡ 2 * (base % p) + 1 [MOD p] :=
        ((Nat.ModEq.refl 2).mul (Nat.mod_modEq base p).symm).add_right 1
      _ ≡ (2 * (base % p) + 1) % p [MOD p] := (Nat.mod_modEq _ _).symm
    exact ⟨mul_inv_mem_zeros hmod hdvd2 (quarter_modEq hp), Nat.mod_lt _ hpos⟩

/-- One marking loop: the zeros from the offset on are marked, and it stops at the first zero
past the window. -/
theorem markMultiples_eq {p : SmallPrime} (sieve : Vector Bool size) (hsize : size < 2 ^ 32)
    (hc : Nat.Coprime p m) (hk : k ∈ zeros p m a) (hlt : k < size + p) :
    ∃ sieve' k', markMultiples p k sieve = some (sieve', k') ∧ k' ∈ zeros p m a ∧ size ≤ k' ∧
      k' < size + p ∧ ∀ j (h : j < size),
        sieve'[j] = true ↔ sieve[j] = true ∨ k ≤ j ∧ j ∈ zeros p m a := by
  have hp := p.lt
  induction hn : size - k using Nat.strong_induction_on generalizing k sieve with
  | h n ih =>
    rw [markMultiples]
    by_cases h : k < size
    · have hpos := p.2.1.pos
      rw [dif_pos h, Checked.add_eq (by omega)]
      obtain ⟨sieve', k', he, hk', hle, hlt', hmark⟩ := ih (size - (k + p)) (by omega)
        (sieve.set k true h) (next_zero hc hk) (by omega) rfl
      refine ⟨sieve', k', he, hk', hle, hlt', fun j hj => ?_⟩
      rw [hmark, Vector.getElem_set]
      by_cases hkj : k = j
      · subst j
        simp [hk]
      · rw [if_neg hkj]
        -- between this mark and the next one there is nothing to mark
        have hgap : k < j → j < k + p → j ∉ zeros p m a := not_mem_zeros hc hk
        apply Iff.intro
        · rintro (hs | ⟨hle', hz⟩)
          · exact .inl hs
          · exact .inr ⟨by omega, hz⟩
        · rintro (hs | ⟨hle', hz⟩)
          · exact .inl hs
          · refine .inr ⟨?_, hz⟩
            by_contra hlt''
            exact hgap (by omega) (by omega) hz
    · rw [dif_neg h]
      refine ⟨sieve, k, rfl, hk, by omega, hlt, fun j hj => ?_⟩
      apply Iff.intro
      · exact .inl
      · rintro (hs | ⟨hle, -⟩)
        · exact hs
        · omega

/-- Marking one lane leaves its offsets at the start of the next window. -/
theorem markLane_eq {lane : Lane} (sieve : Vector Bool size) (hsize : size < 2 ^ 32)
    (hp : lane.p.1 ≠ 2) (ha : lane.Aligned base) :
    ∃ sieve' lane', markLane sieve lane = some (sieve', lane') ∧ lane'.p = lane.p ∧
      lane'.Aligned (base + 2 * size) ∧ ∀ j (h : j < size),
        sieve'[j] = true ↔ sieve[j] = true ∨ Strikes lane.p (base + 2 * j) := by
  have hx : Nat.Coprime lane.p 2 := lane.p.coprime hp 1
  have htwoX : Nat.Coprime lane.p 4 := lane.p.coprime hp 2
  obtain ⟨sieve1, k1, he1, hk1, hle1, hlt1, hmark1⟩ := markMultiples_eq sieve hsize hx
    ha.x.1 (by have := ha.x.2; omega)
  obtain ⟨sieve2, k2, he2, hk2, hle2, hlt2, hmark2⟩ := markMultiples_eq sieve1 hsize
    htwoX ha.twoX.1 (by have := ha.twoX.2; omega)
  refine ⟨sieve2, ⟨lane.p, k1 - size, k2 - size⟩, ?_, rfl, ⟨⟨?_, ?_⟩, ?_, ?_⟩, fun j hj => ?_⟩
  · simp only [markLane, if_neg hp, he1, he2, Checked.sub_eq hle1, Checked.sub_eq hle2,
      Option.bind_eq_bind, Option.bind_some]
  · rw [slide_mem_zeros, Nat.sub_add_cancel hle1]
    exact hk1
  · show k1 - size < lane.p.1
    omega
  · rw [show 2 * (base + 2 * size) + 1 = 2 * base + 1 + 4 * size by ring, slide_mem_zeros,
      Nat.sub_add_cancel hle2]
    exact hk2
  · show k2 - size < lane.p.1
    omega
  · have hleast : j ∈ zeros lane.p 2 base → lane.offsetX ≤ j :=
      fun hz => (isLeast_zeros hx ha.x.1 ha.x.2).2 hz
    have hleast2 : j ∈ zeros lane.p 4 (2 * base + 1) → lane.offset2x ≤ j :=
      fun hz => (isLeast_zeros htwoX ha.twoX.1 ha.twoX.2).2 hz
    rw [hmark2, hmark1, and_iff_right_of_imp hleast, and_iff_right_of_imp hleast2, or_assoc,
      mem_zeros_twoX, mem_zeros]
    exact or_congr_right ⟨fun h => ⟨hp, h⟩, fun h => h.2⟩

/-- A lane whose offsets are right, which is any lane of the skipped prime 2. -/
def Lane.Valid (base : Nat) (lane : Lane) : Prop := lane.p.1 ≠ 2 → lane.Aligned base

theorem markLanes_eq {lanes : List Lane} (sieve : Vector Bool size) (hsize : size < 2 ^ 32)
    (hv : ∀ lane ∈ lanes, lane.Valid base) :
    ∃ sieve' lanes', markLanes sieve lanes = some (sieve', lanes') ∧
      lanes'.map Lane.p = lanes.map Lane.p ∧ (∀ lane ∈ lanes', lane.Valid (base + 2 * size)) ∧
      ∀ j (h : j < size),
        sieve'[j] = true ↔ sieve[j] = true ∨ ∃ lane ∈ lanes, Strikes lane.p (base + 2 * j) := by
  induction lanes generalizing sieve with
  | nil => exact ⟨sieve, [], rfl, rfl, List.forall_mem_nil _, fun j hj => by simp⟩
  | cons lane lanes ih =>
    obtain ⟨hlane, hlanes⟩ := List.forall_mem_cons.1 hv
    have hfirst : ∃ sieve1 lane1, markLane sieve lane = some (sieve1, lane1) ∧
        lane1.p = lane.p ∧ lane1.Valid (base + 2 * size) ∧ ∀ j (h : j < size),
          sieve1[j] = true ↔ sieve[j] = true ∨ Strikes lane.p (base + 2 * j) := by
      by_cases hp : lane.p.1 = 2
      · refine ⟨sieve, lane, if_pos hp, rfl, fun h => absurd hp h, fun j hj => ?_⟩
        exact ⟨.inl, fun h => h.resolve_right fun hs => hs.1 hp⟩
      · obtain ⟨sieve1, lane1, he, hpeq, ha, hmark⟩ :=
          markLane_eq sieve hsize hp (hlane hp)
        exact ⟨sieve1, lane1, he, hpeq, fun _ => ha, hmark⟩
    obtain ⟨sieve1, lane1, he1, hp1, hv1, hmark1⟩ := hfirst
    obtain ⟨sieve2, lanes2, he2, hp2, hv2, hmark2⟩ := ih sieve1 hlanes
    refine ⟨sieve2, lane1 :: lanes2, ?_, ?_, List.forall_mem_cons.2 ⟨hv1, hv2⟩, fun j hj => ?_⟩
    · simp only [markLanes, he1, he2, Option.bind_eq_bind, Option.bind_some]
    · rw [List.map_cons, List.map_cons, hp1, hp2]
    · rw [hmark2, hmark1, or_assoc, List.exists_mem_cons_iff]

theorem initialLanes_eq (primes : List SmallPrime) (base : Nat) :
    ∃ lanes, initialLanes primes base = some lanes ∧ lanes.map Lane.p = primes ∧
      ∀ lane ∈ lanes, lane.Valid base := by
  induction primes with
  | nil => exact ⟨[], rfl, rfl, List.forall_mem_nil _⟩
  | cons p primes ih =>
    obtain ⟨lanes, he, hp, hv⟩ := ih
    have hfirst : ∃ lane, initialOffsets base p = some lane ∧ lane.p = p ∧ lane.Valid base := by
      by_cases h2 : p.1 = 2
      · exact ⟨⟨p, 0, 0⟩, if_pos h2, rfl, fun h => absurd h2 h⟩
      · obtain ⟨lane, he', hp', ha⟩ := initialOffsets_eq base h2
        exact ⟨lane, he', hp', fun _ => ha⟩
    obtain ⟨lane, he', hp', hv'⟩ := hfirst
    refine ⟨lane :: lanes, ?_, ?_, List.forall_mem_cons.2 ⟨hv', hv⟩⟩
    · unfold initialLanes at he
      simp only [initialLanes, List.mapM_cons, he, he', Option.bind_eq_bind, Option.bind_some,
        Option.pure_def]
    · rw [List.map_cons, hp', hp]

theorem moveBase_eq (base : Nat) : moveBase base = some (base + 2 * sieveSize) := by
  have := sieveSize_lt
  rw [moveBase, Checked.cast_eq (by omega), Checked.mul_eq (by omega), Option.map_some]

theorem markWindow_eq {lanes : List Lane} (hv : ∀ lane ∈ lanes, lane.Valid base) :
    ∃ sieve lanes', markWindow lanes = some (sieve, lanes') ∧
      lanes'.map Lane.p = lanes.map Lane.p ∧ (∀ lane ∈ lanes', lane.Valid (base + 2 * sieveSize)) ∧
      ∀ j (h : j < sieveSize),
        sieve[j] = true ↔ ∃ p ∈ lanes.map Lane.p, Strikes p (base + 2 * j) := by
  have hsize := sieveSize_lt
  obtain ⟨sieve, lanes', he, hp, hv', hmark⟩ :=
    markLanes_eq (Vector.replicate sieveSize false) (by omega) hv
  refine ⟨sieve, lanes', he, hp, hv', fun j hj => ?_⟩
  rw [hmark, Vector.getElem_replicate, or_iff_right Bool.false_ne_true]
  simp only [List.mem_map, exists_exists_and_eq_and]

/-- The unmarked positions from `k` on whose candidate passes both tests. -/
def hits (isProbablyPrime : Nat → Nat → IsPrime) (base : Nat) (sieve : Vector Bool size)
    (k : Nat) : Set Nat :=
  {j | k ≤ j ∧ ∃ h : j < size, sieve[j] = false ∧ passes isProbablyPrime (base + 2 * j) = true}

theorem hits_succ {isProbablyPrime : Nat → Nat → IsPrime} {sieve : Vector Bool size}
    (hk : k < size) (h : sieve[k] = false → passes isProbablyPrime (base + 2 * k) = false) :
    hits isProbablyPrime base sieve k = hits isProbablyPrime base sieve (k + 1) := by
  ext j
  apply Iff.intro
  · rintro ⟨hle, hj, hs, hpass⟩
    rcases Nat.eq_or_lt_of_le hle with rfl | hlt
    · rw [h hs] at hpass
      cases hpass
    · exact ⟨hlt, hj, hs, hpass⟩
  · rintro ⟨hle, hj⟩
    exact ⟨by omega, hj⟩

/-- The scan returns the safe prime over the first hit, and goes through when there is none. -/
theorem scan_eq (isProbablyPrime : Nat → Nat → IsPrime) (base : Nat) (sieve : Vector Bool size)
    (hsize : size < 2 ^ 31) (k : Nat) :
    (∃ j, IsLeast (hits isProbablyPrime base sieve k) j ∧
      scan isProbablyPrime base sieve k = some (some (2 * (base + 2 * j) + 1))) ∨
    hits isProbablyPrime base sieve k = ∅ ∧ scan isProbablyPrime base sieve k = some none := by
  induction hn : size - k using Nat.strong_induction_on generalizing k with
  | h n ih =>
    rw [scan]
    by_cases hk : k < size
    · have hrest := ih (size - (k + 1)) (by omega) (k + 1) rfl
      rw [dif_pos hk]
      by_cases hs : sieve[k] = true
      · rw [if_pos hs, hits_succ hk fun h => absurd hs (by rw [h]; exact Bool.false_ne_true)]
        exact hrest
      · rw [if_neg hs, Checked.cast_eq (by omega), Checked.mul_eq (by omega)]
        simp only [Option.bind_eq_bind, Option.bind_some]
        by_cases hpass : passes isProbablyPrime (base + 2 * k) = true
        · refine .inl ⟨k, ⟨⟨Nat.le_refl k, hk, Bool.eq_false_of_not_eq_true hs, hpass⟩,
            fun j hj => hj.1⟩, ?_⟩
          rw [if_pos hpass, Nat.shiftLeft_eq, Nat.pow_one, Nat.mul_comm]
        · rw [if_neg hpass, hits_succ hk fun _ => Bool.eq_false_of_not_eq_true hpass]
          exact hrest
    · rw [dif_neg hk]
      refine .inr ⟨Set.eq_empty_of_forall_notMem ?_, rfl⟩
      rintro j ⟨hle, hj, -⟩
      omega

end WalletMpc.FastPaillier
