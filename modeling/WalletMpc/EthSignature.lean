import WalletMpc.PublicKeys

namespace WalletMpc.Client
open Ecdsa Proto Participant
set_option autoImplicit true

/-- A digest of 32 bytes. -/
abbrev B256 := {bytes : Bytes // bytes.length = 32}

/-- The signature that is attached to a transaction. -/
structure EthSignature where
  r : Nat
  s : Nat
  yParity : Bool

/-- `U256::from_be_slice`, which panics on more than 32 bytes. -/
def u256FromBeSlice (bytes : Bytes) : Option Nat :=
  if 32 < bytes.length then none else some (BigEndian.toNat bytes)

/-- The signer of a transaction: the signature is normalized, and its parity bit is the id. -/
def EthSignature.recover (c : Curve) (sig : EthSignature) (digest : B256) : Option c.Point :=
  (Signature.ofNat c sig.r sig.s).bind fun signature =>
    if IsHigh signature.s then
      recoverFromPrehash digest ⟨signature.r, -signature.s, signature.r_ne,
        neg_ne_zero.2 signature.s_ne⟩ ⟨!sig.yParity, false⟩
    else recoverFromPrehash digest signature ⟨sig.yParity, false⟩

variable {c : Curve}

/-- What `run_mpc_signing_test` makes of a signature: the result of `recover_public_key`, which
it logs, and the signature of the transaction; `none` is a panic. -/
def handleSignature (sec1 : Sec1 c) (digest : B256) (signature : SignatureMessage) :
    Option (Except String (String × String) × EthSignature) := do
  let yParity := signature.v
  let recovered ← match recoverPublicKey sec1 digest signature.r signature.s yParity with
    | .ok publicKey => some (.ok publicKey)
    | .error (.error e) => some (.error e)
    | .error .panic => none
  let r ← u256FromBeSlice signature.r
  let s ← u256FromBeSlice signature.s
  some (recovered, ⟨r, s, yParity ≠ 0⟩)

/-- The client gets through, and the transaction is signed by the key that was recovered. -/
def HandledAlike (sec1 : Sec1 c) (digest : B256) (signature : SignatureMessage) : Prop :=
  ∃ recovered sig, handleSignature sec1 digest signature = some (recovered, sig) ∧
    ∀ Q, Q ≠ 0 → recovered = .ok (sec1.publicKeyHex Q) → sig.recover c digest = some Q

/-- The low byte of v is an id that names the commitment under some key. -/
def Recoverable (c : Curve) (digest : B256) (signature : SignatureMessage) : Prop :=
  ∃ sig id Q, Signature.ofNat c (BigEndian.toNat signature.r) (BigEndian.toNat signature.s) =
      some sig ∧ RecoveryId.fromByte (signature.v.toNat % 256) = some id ∧ ¬IsHigh sig.s ∧
    Q ≠ 0 ∧ sig.Names id (sig.commitment (BigEndian.toNat digest.1) Q)

theorem not_high_of_recoverFromPrehash {sig : Signature c} {id : RecoveryId} {Q : c.Point}
    (h : recoverFromPrehash prehash sig id = some Q) : ¬IsHigh sig.s := by
  obtain ⟨_, _, hQ⟩ := Option.bind_eq_some_iff.1 h
  exact (of_decide_eq_true (Option.filter_eq_some_iff.1 hQ).2).1

theorem recoverFromPrehash_digest {sig : Signature c} {id : RecoveryId} {Q : c.Point}
    (digest : B256) : recoverFromPrehash digest sig id = some Q ↔
      ¬IsHigh sig.s ∧ Q ≠ 0 ∧ sig.Names id (sig.commitment (BigEndian.toNat digest.1) Q) := by
  apply Iff.intro
  · intro h
    have hs := not_high_of_recoverFromPrehash h
    have hQ := ne_zero_of_recoverFromPrehash h
    obtain ⟨z, hz, hn⟩ := (recoverFromPrehash_eq_some hs hQ).1 h
    rw [prehashScalar_of_length digest.2] at hz
    obtain rfl := Option.some.inj hz
    exact ⟨hs, hQ, hn⟩
  · rintro ⟨hs, hQ, hn⟩
    exact (recoverFromPrehash_eq_some hs hQ).2 ⟨_, prehashScalar_of_length digest.2, hn⟩

theorem fromSlice_append {r s : Bytes} (hr : r.length = 32) (hs : s.length = 32) :
    Signature.fromSlice c (r ++ s) =
      Signature.ofNat c (BigEndian.toNat r) (BigEndian.toNat s) := by
  rw [Signature.fromSlice, if_pos (by rw [List.length_append, hr, hs]), List.take_left' hr,
    List.drop_left' hr]

/-- A key comes out of 32 and 32 bytes just when the low byte of v names its commitment. -/
theorem recoverPublicKey_ok_iff (sec1 : Sec1 c) (digest : B256) {r s : Bytes} (v : UInt32)
    (hr : r.length = 32) (hs : s.length = 32) :
    recoverPublicKey sec1 digest r s v = .ok publicKey ↔
      ∃ sig id Q, Signature.ofNat c (BigEndian.toNat r) (BigEndian.toNat s) = some sig ∧
        RecoveryId.fromByte (v.toNat % 256) = some id ∧
        recoverFromPrehash digest sig id = some Q ∧ publicKey = sec1.publicKeyHex Q := by
  rw [recoverPublicKey, if_neg (lengths_ok hr hs), fromSlice_append hr hs, UInt32.toNat_toUInt8]
  apply Iff.intro
  · intro h
    split at h
    · cases h
    · next sig hsig =>
      split at h
      · cases h
      · next id hid =>
        split at h
        · cases h
        · next Q hQ => exact ⟨sig, id, Q, hsig, hid, hQ, (Except.ok.inj h).symm⟩
  · rintro ⟨sig, id, Q, hsig, hid, hQ, rfl⟩
    simp only [hsig, hid, hQ]

theorem recoverPublicKey_ne_panic (sec1 : Sec1 c) (digest : Bytes) {r s : Bytes} (v : UInt32)
    (hr : r.length = 32) (hs : s.length = 32) :
    recoverPublicKey sec1 digest r s v ≠ .error .panic := by
  intro h
  rw [recoverPublicKey, if_neg (lengths_ok hr hs)] at h
  split at h
  · cases h
  · split at h
    · cases h
    · split at h
      · cases h
      · cases h

theorem handleSignature_panics {sec1 : Sec1 c} {digest : B256} {m : SignatureMessage}
    (h : m.r.length ≠ 32 ∨ m.s.length ≠ 32) : handleSignature sec1 digest m = none := by
  rw [handleSignature, recoverPublicKey, if_pos h]
  rfl

theorem handleSignature_eq_some (sec1 : Sec1 c) (digest : B256) {m : SignatureMessage}
    (hr : m.r.length = 32) (hs : m.s.length = 32) :
    ∃ recovered, handleSignature sec1 digest m =
        some (recovered, ⟨BigEndian.toNat m.r, BigEndian.toNat m.s, m.v ≠ 0⟩) ∧
      ∀ publicKey, recovered = .ok publicKey ↔
        recoverPublicKey sec1 digest m.r m.s m.v = .ok publicKey := by
  have hr256 : u256FromBeSlice m.r = some (BigEndian.toNat m.r) := if_neg (by omega)
  have hs256 : u256FromBeSlice m.s = some (BigEndian.toNat m.s) := if_neg (by omega)
  have hne := recoverPublicKey_ne_panic sec1 digest m.v hr hs
  rw [handleSignature, hr256, hs256]
  cases hrec : recoverPublicKey sec1 digest m.r m.s m.v with
  | ok publicKey =>
    refine ⟨.ok publicKey, rfl, fun other => ?_⟩
    rw [Except.ok.injEq, Except.ok.injEq]
  | error failure =>
    cases failure with
    | error e =>
      refine ⟨.error e, rfl, fun other => iff_of_false ?_ ?_⟩
      · intro h
        cases h
      · intro h
        cases h
    | panic => exact absurd hrec hne

theorem EthSignature.recover_of_low {sig : Signature c} {r s : Nat} {yParity : Bool}
    (digest : B256) (hsig : Signature.ofNat c r s = some sig) (hs : ¬IsHigh sig.s) :
    EthSignature.recover c ⟨r, s, yParity⟩ digest =
      recoverFromPrehash digest sig ⟨yParity, false⟩ := by
  rw [recover, hsig, Option.bind_some, if_neg hs]

/-- A key recovered under another id than the parity bit is not the one that signs. -/
theorem HandledAlike.parity {sec1 : Sec1 c} {digest : B256} {m : SignatureMessage}
    (h : HandledAlike sec1 digest m) (hr : m.r.length = 32) (hs : m.s.length = 32)
    (hrec : Recoverable c digest m) : m.v = 0 ∨ m.v.toNat % 256 = 1 := by
  obtain ⟨sig, id, Q, hsig, hid, hlow, hQ, hn⟩ := hrec
  obtain ⟨recovered, hhandle, hkey⟩ := handleSignature_eq_some sec1 digest hr hs
  obtain ⟨recovered', eth, hhandle', hsame⟩ := h
  obtain ⟨rfl, rfl⟩ := Prod.mk.inj (Option.some.inj (hhandle.symm.trans hhandle'))
  have hprehash := (recoverFromPrehash_digest digest).2 ⟨hlow, hQ, hn⟩
  have hok := (recoverPublicKey_ok_iff sec1 digest m.v hr hs).2 ⟨sig, id, Q, hsig, hid, hprehash, rfl⟩
  have heth := hsame Q hQ ((hkey _).2 hok)
  rw [EthSignature.recover_of_low digest hsig hlow, recoverFromPrehash_digest] at heth
  obtain rfl := hn.id_eq heth.2.2
  by_cases hv : m.v = 0
  · exact .inl hv
  · refine .inr ?_
    rw [← RecoveryId.fromByte_eq_some.1 hid, decide_eq_true hv]
    rfl

/-- The client gets through just on 32 and 32 bytes, and then both readings of v agree just when
v is 0, or 1 in its low byte, or no key comes out at all. -/
theorem handledAlike_iff (sec1 : Sec1 c) (digest : B256) (m : SignatureMessage) :
    HandledAlike sec1 digest m ↔ m.r.length = 32 ∧ m.s.length = 32 ∧
      (m.v = 0 ∨ m.v.toNat % 256 = 1 ∨ ¬Recoverable c digest m) := by
  apply Iff.intro
  · intro h
    have hlengths : m.r.length = 32 ∧ m.s.length = 32 := by
      by_contra hpanic
      obtain ⟨recovered, sig, hhandle, -⟩ := h
      rw [handleSignature_panics (not_and_or.1 hpanic)] at hhandle
      cases hhandle
    refine ⟨hlengths.1, hlengths.2, ?_⟩
    by_cases hrec : Recoverable c digest m
    · exact (h.parity hlengths.1 hlengths.2 hrec).imp_right .inl
    · exact .inr (.inr hrec)
  · rintro ⟨hr, hs, hv⟩
    obtain ⟨recovered, hhandle, hkey⟩ := handleSignature_eq_some sec1 digest hr hs
    refine ⟨recovered, _, hhandle, fun Q hQ hok => ?_⟩
    obtain ⟨sig, id, Q', hsig, hid, hprehash, hhex⟩ :=
      (recoverPublicKey_ok_iff sec1 digest m.v hr hs).1 ((hkey _).1 hok)
    obtain rfl := sec1.publicKeyHex_inj hQ (ne_zero_of_recoverFromPrehash hprehash) hhex
    obtain ⟨hlow, -, hn⟩ := (recoverFromPrehash_digest digest).1 hprehash
    rw [EthSignature.recover_of_low digest hsig hlow]
    rcases hv with hv | hv | hv
    · rw [hv] at hid ⊢
      obtain rfl := Option.some.inj hid
      exact hprehash
    · have hne : m.v ≠ 0 := by
        intro h0
        rw [h0] at hv
        cases hv
      rw [hv] at hid
      obtain rfl := Option.some.inj hid
      rw [decide_eq_true hne]
      exact hprehash
    · exact absurd ⟨sig, id, Q, hsig, hid, hlow, hQ, hn⟩ hv

/-- No bytes at all make the client panic, and v = 256 makes it recover one key and sign with
another. -/
theorem remote_answer_mishandled :
    handleSignature tinySec1 ⟨tinyDigest 30, rfl⟩ ⟨[], [], 0⟩ = none ∧
      ¬HandledAlike tinySec1 ⟨tinyDigest 30, rfl⟩
        ⟨scalarBytes tinySignature.r, scalarBytes tinySignature.s, 256⟩ := by
  apply And.intro
  · exact handleSignature_panics (.inl (by decide))
  · intro h
    have hsig : Signature.ofNat tiny (BigEndian.toNat (scalarBytes tinySignature.r))
        (BigEndian.toNat (scalarBytes tinySignature.s)) = some tinySignature := by
      rw [toNat_scalarBytes, toNat_scalarBytes, Signature.ofNat_val]
    rcases h.parity (length_scalarBytes _) (length_scalarBytes _)
      ⟨tinySignature, ⟨false, false⟩, tiny.gen, hsig, rfl, by decide, tinyGen_ne, tinyDigest_names⟩ with
      hv | hv
    · cases hv
    · cases hv

end WalletMpc.Client
