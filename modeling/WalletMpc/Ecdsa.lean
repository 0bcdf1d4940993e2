import Mathlib
import WalletMpc.BigEndian

namespace Ecdsa
set_option autoImplicit true

/-- A group of prime order with the coordinates of its points, as ECDSA uses it. -/
structure Curve where
  order : Nat
  prime : order.Prime
  order_lt : order < 2 ^ 256
  Point : Type
  [group : AddCommGroup Point]
  [module : Module (ZMod order) Point]
  [decEq : DecidableEq Point]
  gen : Point
  x : Point → Nat
  yOdd : Point → Bool
  decompress : Nat → Bool → Option Point
  decompress_eq_some : ∀ a odd R, decompress a odd = some R ↔ R ≠ 0 ∧ x R = a ∧ yOdd R = odd

attribute [instance] Curve.group Curve.module Curve.decEq

instance (c : Curve) : Fact c.order.Prime := ⟨c.prime⟩

abbrev Curve.Scalar (c : Curve) : Type := ZMod c.order

structure Signature (c : Curve) where
  r : c.Scalar
  s : c.Scalar
  r_ne : r ≠ 0
  s_ne : s ≠ 0

/-- Which of the points whose x-coordinate is r modulo the order was the commitment. -/
structure RecoveryId where
  isYOdd : Bool
  isXReduced : Bool
  deriving DecidableEq

def RecoveryId.toByte (id : RecoveryId) : UInt8 :=
  (if id.isYOdd then 1 else 0) + (if id.isXReduced then 2 else 0)

def RecoveryId.fromByte (b : Nat) : Option RecoveryId :=
  if b < 4 then some ⟨b % 2 = 1, 2 ≤ b⟩ else none

def RecoveryId.all : List RecoveryId :=
  [⟨false, false⟩, ⟨true, false⟩, ⟨false, true⟩, ⟨true, true⟩]

theorem RecoveryId.fromByte_toByte (id : RecoveryId) : fromByte id.toByte.toNat = some id := by
  obtain ⟨isYOdd, isXReduced⟩ := id
  cases isYOdd with
  | false =>
    cases isXReduced with
    | false => rfl
    | true => rfl
  | true =>
    cases isXReduced with
    | false => rfl
    | true => rfl

variable {c : Curve}

def Signature.commitment (sig : Signature c) (z : c.Scalar) (Q : c.Point) : c.Point :=
  (z / sig.s) • c.gen + (sig.r / sig.s) • Q

/-- ECDSA verification of a signature on a digest under a public key. -/
def Signature.Valid (sig : Signature c) (z : c.Scalar) (Q : c.Point) : Prop :=
  sig.commitment z Q ≠ 0 ∧ (c.x (sig.commitment z Q) : c.Scalar) = sig.r

instance (sig : Signature c) (z : c.Scalar) (Q : c.Point) : Decidable (sig.Valid z Q) :=
  inferInstanceAs (Decidable (_ ∧ _))

/-- The public key under which the signature is valid with the commitment that the id names. -/
def Signature.recover (sig : Signature c) (z : c.Scalar) (id : RecoveryId) : Option c.Point :=
  (c.decompress (if id.isXReduced then sig.r.val + c.order else sig.r.val) id.isYOdd).bind
    fun R =>
      let Q := (-(sig.r⁻¹ * z)) • c.gen + (sig.r⁻¹ * sig.s) • R
      if Q = 0 then none else some Q

theorem Signature.commitment_recovered (sig : Signature c) (z : c.Scalar) (R : c.Point) :
    sig.commitment z ((-(sig.r⁻¹ * z)) • c.gen + (sig.r⁻¹ * sig.s) • R) = R := by
  have hr := sig.r_ne
  have hs := sig.s_ne
  have hgen : z / sig.s + sig.r / sig.s * -(sig.r⁻¹ * z) = 0 := by
    field_simp
    ring
  have hR : sig.r / sig.s * (sig.r⁻¹ * sig.s) = 1 := by
    field_simp
  rw [Signature.commitment, smul_add, smul_smul, smul_smul, ← add_assoc, ← add_smul, hgen, hR,
    zero_smul, one_smul, zero_add]

theorem Signature.recover_valid {sig : Signature c} {recoveryId : RecoveryId}
    (h : sig.recover z recoveryId = some Q) : sig.Valid z Q := by
  rw [Signature.recover] at h
  obtain ⟨R, hR, hQ⟩ := Option.bind_eq_some_iff.1 h
  obtain ⟨hne, hx, _⟩ := (c.decompress_eq_some ..).1 hR
  dsimp only at hQ
  split at hQ
  · cases hQ
  · cases hQ
    rw [Signature.Valid]
    rw [sig.commitment_recovered, hx]
    refine ⟨hne, ?_⟩
    split
    · rw [Nat.cast_add, ZMod.natCast_self, add_zero, ZMod.natCast_zmod_val]
    · rw [ZMod.natCast_zmod_val]

def IsHigh (s : c.Scalar) : Prop := c.order / 2 < s.val

instance (s : c.Scalar) : Decidable (IsHigh s) := Nat.decLt ..

/-- The digest bytes that verifiers reduce: at least 16, padded or cut to 32. -/
def bits2field (prehash : List UInt8) : Option (List UInt8) :=
  if prehash.length < 16 then none
  else some (List.replicate (32 - prehash.length) 0 ++ prehash.take 32)

/-- Key recovery that accepts only normalized signatures which verify under the result. -/
def recoverFromPrehash (prehash : List UInt8) (sig : Signature c) (id : RecoveryId) :
    Option c.Point :=
  (bits2field prehash).bind fun bytes =>
    let z : c.Scalar := BigEndian.toNat bytes
    (sig.recover z id).filter fun Q => ¬IsHigh sig.s ∧ sig.Valid z Q

/-- The first id under which the hashed message gives back the key. -/
def trialRecoveryFromMsg (hash : List UInt8 → List UInt8) (Q : c.Point) (msg : List UInt8)
    (sig : Signature c) : Option RecoveryId :=
  RecoveryId.all.find? fun id => recoverFromPrehash (hash msg) sig id = some Q

theorem bits2field_of_length {prehash : List UInt8} (h : prehash.length = 32) :
    bits2field prehash = some prehash := by
  rw [bits2field, if_neg (by rw [h]; decide), h, List.take_of_length_le (Nat.le_of_eq h)]
  rfl

theorem recover_of_recoverFromPrehash {sig : Signature c} {prehash : List UInt8}
    {recoveryId : RecoveryId} (hl : prehash.length = 32)
    (h : recoverFromPrehash prehash sig recoveryId = some Q) :
    sig.recover (BigEndian.toNat prehash) recoveryId = some Q := by
  rw [recoverFromPrehash, bits2field_of_length hl, Option.bind_some] at h
  exact (Option.filter_eq_some_iff.1 h).1

def Signature.ofNat (c : Curve) (r s : Nat) : Option (Signature c) :=
  if h : (r : c.Scalar) ≠ 0 ∧ (s : c.Scalar) ≠ 0 ∧ r < c.order ∧ s < c.order then
    some ⟨r, s, h.1, h.2.1⟩
  else none

theorem Signature.ofNat_val (sig : Signature c) : ofNat c sig.r.val sig.s.val = some sig := by
  have hr : ((sig.r.val : Nat) : c.Scalar) = sig.r := ZMod.natCast_zmod_val sig.r
  have hs : ((sig.s.val : Nat) : c.Scalar) = sig.s := ZMod.natCast_zmod_val sig.s
  rw [ofNat, dif_pos ⟨hr.symm ▸ sig.r_ne, hs.symm ▸ sig.s_ne, sig.r.val_lt, sig.s.val_lt⟩]
  simp only [hr, hs]

def Signature.fromSlice (c : Curve) (bytes : List UInt8) : Option (Signature c) :=
  if bytes.length = 64 then
    ofNat c (BigEndian.toNat (bytes.take 32)) (BigEndian.toNat (bytes.drop 32))
  else none

@[irreducible] def scalarBytes (z : c.Scalar) : List UInt8 := BigEndian.ofNat 32 z.val

@[simp] theorem length_scalarBytes (z : c.Scalar) : (scalarBytes z).length = 32 := by
  rw [scalarBytes, BigEndian.length_ofNat]

@[simp] theorem toNat_scalarBytes (z : c.Scalar) : BigEndian.toNat (scalarBytes z) = z.val := by
  rw [scalarBytes, BigEndian.toNat_ofNat (Nat.lt_trans z.val_lt c.order_lt)]

theorem Signature.fromSlice_scalarBytes (sig : Signature c) :
    fromSlice c (scalarBytes sig.r ++ scalarBytes sig.s) = some sig := by
  have hlen : (scalarBytes sig.r ++ scalarBytes sig.s).length = 64 := by
    rw [List.length_append, length_scalarBytes, length_scalarBytes]
  rw [fromSlice, if_pos hlen, List.take_left' (length_scalarBytes _),
    List.drop_left' (length_scalarBytes _), toNat_scalarBytes, toNat_scalarBytes,
    Signature.ofNat_val]

/-- The x-coordinates of the multiples of (2, 12) on y² = x³ + 7 over 43 elements. -/
def tinyX (R : Fin 31) : Nat :=
  [0, 2, 7, 35, 21, 12, 29, 25, 32, 20, 42, 40, 37, 13, 34, 38, 38, 34, 13, 37, 40, 42, 20, 32, 25,
    29, 12, 21, 35, 7, 2].getD R.val 0

def tinyYOdd (R : Fin 31) : Bool :=
  [false, false, true, true, false, false, true, false, false, false, true, true, false, true,
    false, true, false, true, false, true, false, false, true, true, true, false, true, true, false,
    false, true].getD R.val false

theorem tiny_unique : ∀ R R' : Fin 31, R ≠ 0 → R' ≠ 0 → tinyX R = tinyX R' →
    tinyYOdd R = tinyYOdd R' → R = R' := by
  decide

def tinyDecompress (a : Nat) (odd : Bool) : Option (Fin 31) :=
  (List.finRange 31).find? fun R => R ≠ 0 ∧ tinyX R = a ∧ tinyYOdd R = odd

theorem tinyDecompress_eq_some (a : Nat) (odd : Bool) (R : Fin 31) :
    tinyDecompress a odd = some R ↔ R ≠ 0 ∧ tinyX R = a ∧ tinyYOdd R = odd := by
  apply Iff.intro
  · intro h
    have hR := List.find?_some h
    exact of_decide_eq_true hR
  · intro hx
    obtain ⟨hne, hx, hy⟩ := hx
    cases hf : tinyDecompress a odd with
    | none =>
      have hn := List.find?_eq_none.1 hf R (List.mem_finRange R)
      exact absurd (decide_eq_true ⟨hne, hx, hy⟩) hn
    | some R' =>
      have hR' := List.find?_some hf
      obtain ⟨hne', hx', hy'⟩ := of_decide_eq_true hR'
      rw [tiny_unique R' R hne' hne (hx'.trans hx.symm) (hy'.trans hy.symm)]

/-- That curve, of prime order 31: its points are the multiples of the generator. -/
def tiny : Curve where
  order := 31
  prime := by norm_num
  order_lt := by norm_num
  Point := ZMod 31
  gen := (1 : Fin 31)
  x := tinyX
  yOdd := tinyYOdd
  decompress := tinyDecompress
  decompress_eq_some := tinyDecompress_eq_some

end Ecdsa
