import Mathlib.Algebra.GroupWithZero.Nat
import Mathlib.Data.Char
import Mathlib.Tactic.SplitIfs

namespace Hexadecimals
set_option autoImplicit true

/-- The value of a digit in either case. -/
def digit (c : Char) : Option Nat :=
  if '0' ≤ c ∧ c ≤ '9' then some (c.toNat - 48)
  else if 'a' ≤ c ∧ c ≤ 'f' then some (c.toNat - 87)
  else if 'A' ≤ c ∧ c ≤ 'F' then some (c.toNat - 55)
  else none

/-- Two digits a byte, the high one first. -/
def decode : List Char → Option (List UInt8)
  | [] => some []
  | [_] => none
  | high :: low :: rest => do
    let h ← digit high
    let l ← digit low
    some (UInt8.ofNat (16 * h + l) :: (← decode rest))

def encode : List UInt8 → List Char
  | [] => []
  | b :: rest => Nat.digitChar (b.toNat / 16) :: Nat.digitChar (b.toNat % 16) :: encode rest

theorem toNat_toLower (c : Char) : c.toLower.toNat =
    if 65 ≤ c.toNat ∧ c.toNat ≤ 90 then c.toNat + 32 else c.toNat := by
  have hle : 'A'.val ≤ c.val ∧ c.val ≤ 'Z'.val ↔ 65 ≤ c.toNat ∧ c.toNat ≤ 90 := by
    rw [UInt32.le_iff_toNat_le, UInt32.le_iff_toNat_le]
    rfl
  unfold Char.toLower
  split
  case isTrue h =>
    rw [if_pos (hle.1 h)]
    have hlt : c.toNat + 32 < 2 ^ 32 := by
      have := (hle.1 h).2
      omega
    exact (UInt32.toNat_add c.val 32).trans (Nat.mod_eq_of_lt hlt)
  case isFalse h => rw [if_neg (mt hle.2 h)]

theorem toNat_digitChar (h : d < 16) :
    (Nat.digitChar d).toNat = if d < 10 then d + 48 else d + 87 := by
  have : ∀ d : Fin 16, (Nat.digitChar d).toNat = if d.val < 10 then d.val + 48 else d.val + 87 := by
    decide
  exact this ⟨d, h⟩

theorem digit_eq (c : Char) : digit c =
    if 48 ≤ c.toNat ∧ c.toNat ≤ 57 then some (c.toNat - 48)
    else if 97 ≤ c.toNat ∧ c.toNat ≤ 102 then some (c.toNat - 87)
    else if 65 ≤ c.toNat ∧ c.toNat ≤ 70 then some (c.toNat - 55)
    else none := rfl

theorem digit_eq_some_iff : digit c = some d ↔ d < 16 ∧ c.toLower = Nat.digitChar d := by
  rw [digit_eq, ← Char.toNat_inj, toNat_toLower]
  apply Iff.intro
  · intro h
    have hd : d < 16 := by
      split_ifs at h <;> simp only [Option.some.injEq] at h <;> omega
    refine ⟨hd, ?_⟩
    rw [toNat_digitChar hd]
    split_ifs at h ⊢ <;> simp only [Option.some.injEq] at h <;> omega
  · rintro ⟨hd, h⟩
    rw [toNat_digitChar hd] at h
    split_ifs at h ⊢ <;> first | omega | (rw [Option.some.injEq]; omega)

theorem byte_iff (high low : Char) (b : UInt8) :
    digit high = some (b.toNat / 16) ∧ digit low = some (b.toNat % 16) ↔
      ∃ h l, digit high = some h ∧ digit low = some l ∧ UInt8.ofNat (16 * h + l) = b := by
  apply Iff.intro
  · rintro ⟨hh, hl⟩
    refine ⟨_, _, hh, hl, ?_⟩
    rw [Nat.div_add_mod, UInt8.ofNat_toNat]
  · rintro ⟨h, l, hh, hl, rfl⟩
    have hh16 := (digit_eq_some_iff.1 hh).1
    have hl16 := (digit_eq_some_iff.1 hl).1
    have hb : (UInt8.ofNat (16 * h + l)).toNat = 16 * h + l := by
      rw [UInt8.toNat_ofNat', Nat.mod_eq_of_lt (by omega)]
    rw [hb, hh, hl, Option.some.injEq, Option.some.injEq]
    omega

/-- What decodes is what encoding gives, in either case. -/
theorem decode_eq_some_iff {cs : List Char} {bytes : List UInt8} :
    decode cs = some bytes ↔ encode bytes = cs.map Char.toLower := by
  induction cs using decode.induct generalizing bytes with
  | case1 => cases bytes <;> simp [decode, encode]
  | case2 c => cases bytes <;> simp [decode, encode]
  | case3 high low rest ih =>
    have hdecode : decode (high :: low :: rest) = some bytes ↔
        ∃ h l bs, digit high = some h ∧ digit low = some l ∧ decode rest = some bs ∧
          UInt8.ofNat (16 * h + l) :: bs = bytes := by
      simp only [decode, Option.bind_eq_bind, Option.bind_eq_some_iff,
        Option.some.injEq]
      grind
    cases bytes with
    | nil => simp [hdecode, encode]
    | cons b bs =>
      have hb := b.toNat_lt
      have hbyte := byte_iff high low b
      simp only [digit_eq_some_iff (d := b.toNat / 16), digit_eq_some_iff (d := b.toNat % 16)] at hbyte
      have hlt : b.toNat / 16 < 16 ∧ b.toNat % 16 < 16 := by omega
      simp only [hlt, true_and] at hbyte
      rw [hdecode, encode, List.map_cons, List.map_cons, List.cons.injEq, List.cons.injEq, ← ih]
      grind

theorem utf8Size_of_digit (h : digit c = some d) : c.utf8Size = 1 := by
  rw [digit_eq] at h
  rw [Char.utf8Size, if_pos]
  rw [UInt32.le_iff_toNat_le]
  change c.toNat ≤ 127
  split_ifs at h <;> omega

/-- A text that decodes has as many bytes as characters. -/
theorem sum_utf8Size_of_decode {cs : List Char} {bytes : List UInt8} (h : decode cs = some bytes) :
    (cs.map Char.utf8Size).sum = cs.length := by
  induction cs using decode.induct generalizing bytes with
  | case1 => rfl
  | case2 c => cases h
  | case3 high low rest ih =>
    simp only [decode, Option.bind_eq_bind, Option.bind_eq_some_iff] at h
    obtain ⟨_, hhigh, _, hlow, _, hrest, _⟩ := h
    rw [List.map_cons, List.map_cons, List.sum_cons, List.sum_cons, ih hrest,
      utf8Size_of_digit hhigh, utf8Size_of_digit hlow, List.length_cons, List.length_cons]
    omega

theorem length_encode (bytes : List UInt8) : (encode bytes).length = 2 * bytes.length := by
  induction bytes with
  | nil => rfl
  | cons b bs ih =>
    rw [encode, List.length_cons, List.length_cons, ih, List.length_cons]
    omega

end Hexadecimals
