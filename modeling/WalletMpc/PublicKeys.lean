import WalletMpc.Dealer
import WalletMpc.RecoveryIds

namespace WalletMpc.Client
open Ecdsa Proto Participant
set_option autoImplicit true

variable {c : Curve}

/-- The y-coordinates of the points, which encoding prints, and the width of the field. -/
structure Sec1 (c : Curve) where
  y : c.Point → Nat
  x_lt : ∀ Q, c.x Q < 256 ^ 32

def compressed (Q : c.Point) : Bytes :=
  (if c.yOdd Q then 3 else 2) :: BigEndian.ofNat 32 (c.x Q)

def Sec1.uncompressed (sec1 : Sec1 c) (Q : c.Point) : Bytes :=
  4 :: (BigEndian.ofNat 32 (c.x Q) ++ BigEndian.ofNat 32 (sec1.y Q))

def hexDigits : Bytes → List Char
  | [] => []
  | b :: rest => Nat.digitChar (b.toNat / 16) :: Nat.digitChar (b.toNat % 16) :: hexDigits rest

def hexEncode (bytes : Bytes) : String := String.ofList (hexDigits bytes)

def Sec1.publicKeyHex (sec1 : Sec1 c) (Q : c.Point) : String × String :=
  (hexEncode (compressed Q), hexEncode (sec1.uncompressed Q))

/-- `recover_public_key`, in which `copy_from_slice` panics on a slice of another length. -/
def recoverPublicKey (sec1 : Sec1 c) (messageHash r s : Bytes) (recoveryId : UInt32) :
    Except KeyGen.Failure (String × String) :=
  if r.length ≠ 32 ∨ s.length ≠ 32 then .error .panic
  else
    match Signature.fromSlice c (r ++ s) with
    | none => .error (.error "Invalid signature format: signature error")
    | some signature =>
      match RecoveryId.fromByte recoveryId.toUInt8.toNat with
      | none => .error (.error "Invalid recovery ID: signature error")
      | some recoveryId =>
        match recoverFromPrehash messageHash signature recoveryId with
        | none => .error (.error "Public key recovery failed: signature error")
        | some verifyingKey => .ok (sec1.publicKeyHex verifyingKey)

theorem digitChar_inj : ∀ m n : Fin 16, Nat.digitChar m = Nat.digitChar n → m = n := by
  decide

theorem prefix_inj : ∀ odd odd' : Bool,
    (if odd then 3 else 2 : UInt8) = (if odd' then 3 else 2) → odd = odd' := by
  decide

theorem hexDigits_inj {bs bs' : Bytes} (h : hexDigits bs = hexDigits bs') : bs = bs' := by
  induction bs generalizing bs' with
  | nil =>
    cases bs' with
    | nil => rfl
    | cons b' rest' => cases h
  | cons b rest ih =>
    cases bs' with
    | nil => cases h
    | cons b' rest' =>
      obtain ⟨hhigh, htail⟩ := List.cons.inj h
      obtain ⟨hlow, hrest⟩ := List.cons.inj htail
      have hb := b.toNat_lt
      have hb' := b'.toNat_lt
      have hdiv := congrArg Fin.val (digitChar_inj ⟨b.toNat / 16, by omega⟩
        ⟨b'.toNat / 16, by omega⟩ hhigh)
      have hmod := congrArg Fin.val (digitChar_inj ⟨b.toNat % 16, by omega⟩
        ⟨b'.toNat % 16, by omega⟩ hlow)
      dsimp only at hdiv hmod
      obtain rfl : b = b' := UInt8.toNat_inj.1 (by omega)
      rw [ih hrest]

theorem hexEncode_inj {bs bs' : Bytes} (h : hexEncode bs = hexEncode bs') : bs = bs' :=
  hexDigits_inj (String.ofList_injective h)

/-- The printed key tells the key. -/
theorem Sec1.publicKeyHex_inj (sec1 : Sec1 c) {Q Q' : c.Point} (hQ : Q ≠ 0) (hQ' : Q' ≠ 0)
    (h : sec1.publicKeyHex Q = sec1.publicKeyHex Q') : Q = Q' := by
  obtain ⟨hfirst, hbytes⟩ := List.cons.inj (hexEncode_inj (congrArg Prod.fst h))
  have hx : c.x Q = c.x Q' := by
    rw [← BigEndian.toNat_ofNat (sec1.x_lt Q), hbytes, BigEndian.toNat_ofNat (sec1.x_lt Q')]
  have hodd := prefix_inj _ _ hfirst
  have hpoint := (c.decompress_eq_some _ _ Q).2 ⟨hQ, rfl, rfl⟩
  have hpoint' := (c.decompress_eq_some _ _ Q').2 ⟨hQ', rfl, rfl⟩
  rw [hx, hodd] at hpoint
  exact Option.some.inj (hpoint.symm.trans hpoint')

/-- The halves that `copy_from_slice` does not panic on. -/
theorem lengths_ok {r s : Bytes} (hr : r.length = 32) (hs : s.length = 32) :
    ¬(r.length ≠ 32 ∨ s.length ≠ 32) := by
  rw [hr, hs]
  decide

theorem recoverPublicKey_signed (sec1 : Sec1 c) (data : Bytes) (sig : Signature c)
    (id : RecoveryId) : recoverPublicKey sec1 data (scalarBytes sig.r) (scalarBytes sig.s)
      id.toByte.toUInt32 = (recoverFromPrehash data sig id).elim
        (.error (.error "Public key recovery failed: signature error"))
        fun verifyingKey => .ok (sec1.publicKeyHex verifyingKey) := by
  have hlength := lengths_ok (length_scalarBytes sig.r) (length_scalarBytes sig.s)
  have hid : RecoveryId.fromByte id.toByte.toUInt32.toUInt8.toNat = some id := by
    rw [UInt8.toUInt8_toUInt32]
    exact id.fromByte_toByte
  rw [recoverPublicKey, if_neg hlength, Signature.fromSlice_scalarBytes]
  dsimp only
  rw [hid]
  dsimp only
  cases recoverFromPrehash data sig id with
  | none => rfl
  | some verifyingKey => rfl

theorem recoverPublicKey_eq_ok {sec1 : Sec1 c} {data : Bytes} {sig : Signature c}
    {id : RecoveryId} {Q : c.Point} (hQ : Q ≠ 0) :
    recoverPublicKey sec1 data (scalarBytes sig.r) (scalarBytes sig.s) id.toByte.toUInt32 =
        .ok (sec1.publicKeyHex Q) ↔
      recoverFromPrehash data sig id = some Q := by
  rw [recoverPublicKey_signed]
  apply Iff.intro
  · intro h
    cases hrec : recoverFromPrehash data sig id with
    | none =>
      rw [hrec] at h
      cases h
    | some Q' =>
      rw [hrec] at h
      have hQ' := ne_zero_of_recoverFromPrehash hrec
      rw [sec1.publicKeyHex_inj hQ' hQ (Except.ok.inj h)]
  · intro h
    rw [h]
    rfl

section
variable {protocol : Protocol c} {keyShare : KeyShare c} {sig : Signature c}

/-- What was signed gives back the key, and is what the verifier takes it for, just when the data
is a digest of at least 16 bytes, cutting it to 32 does not change its scalar, and the trial
recovery is not misled. -/
theorem same_digest_iff (sec1 : Sec1 c)
    (run : SignedRun protocol txId index executionId data keyShare sig)
    (hm : protocol.signTx txId index executionId data keyShare .ethereum = .ok m) :
    (recoverPublicKey sec1 data m.r m.s m.v = .ok (sec1.publicKeyHex keyShare.sharedPublicKey) ∧
      prehashScalar c data = some (BigEndian.toNat data : c.Scalar)) ↔
    16 ≤ data.length ∧
      BigEndian.toNat (data.take 32) ≡ BigEndian.toNat data [MOD c.order] ∧
      ∀ h, prehashScalar c (protocol.sha256 (scalarBytes (BigEndian.toNat data : c.Scalar))) =
          some h → sig.Candidate (sig.commitment h keyShare.sharedPublicKey) →
        sig.commitment h keyShare.sharedPublicKey =
          sig.commitment (BigEndian.toNat data) keyShare.sharedPublicKey := by
  obtain ⟨id, rfl, hid⟩ := run.signTx_eq_ok.1 hm
  rw [recoverPublicKey_eq_ok keyShare.nonzero, recoverFromPrehash_eq_some run.low keyShare.nonzero,
    ← and_assoc, ← prehashScalar_eq_toNat_iff, and_comm]
  apply and_congr_right
  intro hscalar
  apply Iff.intro
  · intro hrec h hhash hc
    obtain ⟨z, hz, hnames⟩ := hrec
    obtain rfl := Option.some.inj (hscalar.symm.trans hz)
    cases hid with
    | trial h' hhash' hn =>
      obtain rfl := Option.some.inj (hhash'.symm.trans hhash)
      exact hn.point_eq hnames
    | manual missed _ _ => exact absurd hc (missed h hhash)
  · intro hagree
    exists BigEndian.toNat data, hscalar
    cases hid with
    | trial h hhash hn =>
      rw [← hagree h hhash (Signature.candidate_iff.2 ⟨id, hn⟩)]
      exact hn
    | manual _ _ hn => exact hn

end

/-- The points of the small curve with their y-coordinates. -/
def tinySec1 : Sec1 tiny where
  y R := [0, 12, 7, 21, 18, 12, 31, 18, 40, 40, 7, 25, 36, 21, 40, 21, 22, 3, 22, 7, 18, 36, 3, 3, 25,
    12, 31, 25, 22, 36, 31].getD (ZMod.val (n := 31) R) 0
  x_lt := by
    have hx : ∀ R : Fin 31, tinyX R < 43 := by decide
    intro R
    exact Nat.lt_trans (hx R) (by norm_num)

theorem tinyDigest_names : tinySignature.Names ⟨false, false⟩ (tinySignature.commitment
    (BigEndian.toNat (tinyDigest 30)) tiny.gen) := by
  rw [tinySignature_commitment]
  exact ⟨by decide, by decide, by decide⟩

theorem tinyDigest_signed : (tinyProtocol 1).signTx 1 0 [] (tinyDigest 30) tinyGenShare .ethereum =
    .ok ⟨scalarBytes tinySignature.r, scalarBytes tinySignature.s, 0⟩ :=
  (tinyProtocol_run 1).signTx_eq_ok.2
    ⟨_, rfl, .manual (tinyProtocol_missed _ (by decide)) rfl tinyDigest_names⟩

theorem same_digest_tiny :
    recoverPublicKey tinySec1 (tinyDigest 30) (scalarBytes tinySignature.r)
        (scalarBytes tinySignature.s) 0 = .ok (tinySec1.publicKeyHex tiny.gen) ∧
      prehashScalar tiny (tinyDigest 30) = some (BigEndian.toNat (tinyDigest 30) : tiny.Scalar) := by
  apply (same_digest_iff tinySec1 (tinyProtocol_run 1) tinyDigest_signed).2
  refine ⟨by decide, Nat.ModEq.refl _, ?_⟩
  intro h hhash hc
  exact absurd hc (tinyProtocol_missed _ (by decide) h hhash)

/-- The share with the key under which that signature is valid on the four bytes. -/
def tinyDataShare : KeyShare tiny := ⟨0, (23 : tiny.Scalar) • tiny.gen, by decide⟩

/-- Four bytes are signed, and their signature gives back no key at all. -/
theorem four_bytes_refused :
    (tinyProtocol 1).signTx 1 0 [] [1, 2, 3, 4] tinyDataShare .ethereum =
        .ok ⟨scalarBytes tinySignature.r, scalarBytes tinySignature.s, 0⟩ ∧
      SignedRun (tinyProtocol 1) 1 0 [] [1, 2, 3, 4] tinyDataShare tinySignature ∧
      recoverPublicKey tinySec1 [1, 2, 3, 4] (scalarBytes tinySignature.r)
        (scalarBytes tinySignature.s) 0 =
          .error (.error "Public key recovery failed: signature error") ∧
      prehashScalar tiny [1, 2, 3, 4] = none := by
  have hrun : SignedRun (tinyProtocol 1) 1 0 [] [1, 2, 3, 4] tinyDataShare tinySignature := by
    refine ⟨rfl, rfl, by decide, ?_⟩
    rw [Signature.Valid, tinySignature_commitment]
    decide
  have hnames : tinySignature.Names ⟨false, false⟩ (tinySignature.commitment
      (BigEndian.toNat [1, 2, 3, 4]) tinyDataShare.sharedPublicKey) := by
    rw [tinySignature_commitment]
    exact ⟨by decide, by decide, by decide⟩
  refine ⟨?_, hrun, recoverPublicKey_signed tinySec1 [1, 2, 3, 4] tinySignature ⟨false, false⟩, rfl⟩
  exact hrun.signTx_eq_ok.2 ⟨_, rfl, .manual (tinyProtocol_missed _ (by decide)) rfl hnames⟩

end WalletMpc.Client
