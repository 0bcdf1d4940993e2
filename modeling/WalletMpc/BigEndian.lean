import Mathlib.Algebra.Ring.Nat

namespace BigEndian
set_option autoImplicit true

/-- The number that a byte string writes, most significant byte first. -/
def toNat (bs : List UInt8) : Nat := bs.foldl (fun n b => n * 256 + b.toNat) 0

def ofNat : Nat → Nat → List UInt8
  | 0, _ => []
  | k + 1, n => ofNat k (n / 256) ++ [UInt8.ofNat n]

theorem toNat_concat (bs : List UInt8) (b : UInt8) :
    toNat (bs ++ [b]) = toNat bs * 256 + b.toNat := by
  rw [toNat, List.foldl_append]
  rfl

theorem toNat_zeros_append (k : Nat) (bs : List UInt8) :
    toNat (List.replicate k 0 ++ bs) = toNat bs := by
  induction k with
  | zero => rfl
  | succ k ih => exact ih

@[simp] theorem length_ofNat (k n : Nat) : (ofNat k n).length = k := by
  induction k generalizing n with
  | zero => rfl
  | succ k ih => rw [ofNat, List.length_append, ih, List.length_singleton]

theorem toNat_ofNat {k n : Nat} (h : n < 256 ^ k) : toNat (ofNat k n) = n := by
  induction k generalizing n with
  | zero =>
    rw [Nat.pow_zero, Nat.lt_one_iff] at h
    rw [h]
    rfl
  | succ k ih =>
    have hd : n / 256 < 256 ^ k := by
      rw [Nat.div_lt_iff_lt_mul (by decide), ← Nat.pow_succ]
      exact h
    have hb : (UInt8.ofNat n).toNat = n % 256 := UInt8.toNat_ofNat
    rw [ofNat, toNat_concat, ih hd, hb]
    exact Nat.div_add_mod' n 256

end BigEndian
