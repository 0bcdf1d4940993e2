import WalletMpc.Signing

namespace WalletMpc.Participant
open Fallible Ecdsa Proto
set_option autoImplicit true

variable {c : Curve}

/-- The id that the Ethereum branch comes to: one that names the commitment to the digest hashed
once more, and when no id does so the one of 0 and 1 that names the commitment itself. -/
inductive FindsId (sha256 : Bytes → Bytes) (Q : c.Point) (z : c.Scalar) (sig : Signature c)
    (id : RecoveryId) : Prop
  | trial (h : c.Scalar) (hash : prehashScalar c (sha256 (scalarBytes z)) = some h)
      (names : sig.Names id (sig.commitment h Q))
  | manual (missed : ∀ h, prehashScalar c (sha256 (scalarBytes z)) = some h →
        ¬sig.Candidate (sig.commitment h Q))
      (unreduced : id.isXReduced = false) (names : sig.Names id (sig.commitment z Q))

theorem manualRecovery_eq_some {Q : c.Point} {z : c.Scalar} {sig : Signature c}
    (hs : ¬IsHigh sig.s) (hQ : Q ≠ 0) : manualRecovery Q (scalarBytes z) sig = some testId ↔
      ∃ id : RecoveryId, id.isXReduced = false ∧ id.toByte.toNat = testId ∧
        sig.Names id (sig.commitment z Q) := by
  have hnames : ∀ id, recoverFromPrehash (scalarBytes z) sig id = some Q ↔
      sig.Names id (sig.commitment z Q) := by
    intro id
    rw [recoverFromPrehash_eq_some hs hQ, prehashScalar_scalarBytes]
    apply Iff.intro
    · intro h
      obtain ⟨_, hz, h⟩ := h
      cases hz
      exact h
    · intro h
      exact ⟨z, rfl, h⟩
  have htest : ∀ testId, (RecoveryId.fromByte testId).bind
      (recoverFromPrehash (scalarBytes z) sig) = some Q ↔
        ∃ id : RecoveryId, id.toByte.toNat = testId ∧ sig.Names id (sig.commitment z Q) := by
    intro testId
    rw [Option.bind_eq_some_iff]
    exact exists_congr fun id => and_congr RecoveryId.fromByte_eq_some (hnames id)
  rw [manualRecovery]
  apply Iff.intro
  · intro h
    have hmem := List.mem_of_find?_eq_some h
    have hfound := List.find?_some h
    obtain ⟨⟨odd, reduced⟩, rfl, hn⟩ := (htest testId).1 (of_decide_eq_true hfound)
    cases reduced with
    | false => exact ⟨_, rfl, rfl, hn⟩
    | true =>
      cases odd with
      | false => exact absurd hmem (by decide)
      | true => exact absurd hmem (by decide)
  · intro h
    obtain ⟨⟨odd, _⟩, rfl, rfl, hn⟩ := h
    apply find?_eq_some_of_unique
    · cases odd with
      | false => exact List.mem_cons_self
      | true => exact List.mem_cons_of_mem _ List.mem_cons_self
    · exact decide_eq_true ((htest _).2 ⟨_, rfl, hn⟩)
    · intro testId' htest'
      obtain ⟨id', rfl, hn'⟩ := (htest testId').1 (of_decide_eq_true htest')
      rw [hn'.id_eq hn]

/-- The ids that the Ethereum branch returns. -/
theorem ethereumRecoveryId_eq_ok {keyShare : KeyShare c} {z : c.Scalar} {sig : Signature c}
    (hs : ¬IsHigh sig.s) :
    ethereumRecoveryId sha256 keyShare z (scalarBytes sig.r) (scalarBytes sig.s) = .ok v ↔
      ∃ id, v = id.toByte.toUInt32 ∧ FindsId sha256 keyShare.sharedPublicKey z sig id := by
  have htrial : ∀ id, trialRecoveryFromMsg sha256 keyShare.sharedPublicKey (scalarBytes z) sig =
      some id ↔ ∃ h, prehashScalar c (sha256 (scalarBytes z)) = some h ∧
        sig.Names id (sig.commitment h keyShare.sharedPublicKey) :=
    fun id => trialRecoveryFromMsg_eq_some hs keyShare.nonzero
  have hmanual : ∀ testId, manualRecovery keyShare.sharedPublicKey (scalarBytes z) sig =
      some testId ↔ ∃ id : RecoveryId, id.isXReduced = false ∧ id.toByte.toNat = testId ∧
        sig.Names id (sig.commitment z keyShare.sharedPublicKey) :=
    fun testId => manualRecovery_eq_some hs keyShare.nonzero
  rw [ethereumRecoveryId, Signature.fromSlice_scalarBytes]
  dsimp only
  cases ht : trialRecoveryFromMsg sha256 keyShare.sharedPublicKey (scalarBytes z) sig with
  | some found =>
    obtain ⟨h, hhash, hn⟩ := (htrial found).1 ht
    apply Iff.intro
    · intro hv
      cases hv
      exact ⟨found, rfl, .trial h hhash hn⟩
    · intro hv
      obtain ⟨id, rfl, hid⟩ := hv
      cases hid with
      | trial h' hhash' hn' =>
        cases hhash.symm.trans hhash'
        rw [hn.id_eq hn']
      | manual missed _ _ =>
        exact absurd (Signature.candidate_iff.2 ⟨found, hn⟩) (missed h hhash)
  | none =>
    have hmissed := trialRecoveryFromMsg_eq_none hs keyShare.nonzero ht
    apply Iff.intro
    · intro hv
      dsimp only at hv
      split at hv
      · rename_i testId hm
        obtain ⟨id, hx, rfl, hn⟩ := (hmanual testId).1 hm
        cases hv
        exact ⟨id, UInt32.ofNat_uInt8ToNat _, .manual hmissed hx hn⟩
      · cases hv
    · intro hv
      obtain ⟨id, rfl, hid⟩ := hv
      cases hid with
      | trial h hhash hn =>
        cases ht.symm.trans ((htrial id).2 ⟨h, hhash, hn⟩)
      | manual _ hx hn =>
        rw [(hmanual _).2 ⟨id, hx, rfl, hn⟩]
        exact congrArg Except.ok (UInt32.ofNat_uInt8ToNat _)

/-- A call of `sign_tx` whose run of the protocol ends with a normalized signature, valid on the
data under the key of the share. -/
structure SignedRun (protocol : Protocol c) (txId : Int32) (index : UInt16)
    (executionId tx : Bytes) (keyShare : KeyShare c) (sig : Signature c) : Prop where
  joined : protocol.joinRoom (signingRoom txId) index = .ok ()
  signed : protocol.sign (signingArgs index executionId tx keyShare) = .ok sig
  low : ¬IsHigh sig.s
  valid : sig.Valid (BigEndian.toNat tx) keyShare.sharedPublicKey

section
variable {protocol : Protocol c} {keyShare : KeyShare c} {sig : Signature c}

theorem SignedRun.signTx_eq_ok
    (run : SignedRun protocol txId index executionId tx keyShare sig) :
    protocol.signTx txId index executionId tx keyShare .ethereum = .ok m ↔
      ∃ id, m = ⟨scalarBytes sig.r, scalarBytes sig.s, id.toByte.toUInt32⟩ ∧
        FindsId protocol.sha256 keyShare.sharedPublicKey (BigEndian.toNat tx) sig id := by
  have hreturn : protocol.signTx txId index executionId tx keyShare .ethereum =
      (ethereumRecoveryId protocol.sha256 keyShare (BigEndian.toNat tx) (scalarBytes sig.r)
        (scalarBytes sig.s)).map fun v => ⟨scalarBytes sig.r, scalarBytes sig.s, v⟩ := by
    have hsigned := run.signed
    rw [Protocol.signTx, run.joined]
    change (protocol.sign (signingArgs index executionId tx keyShare) >>= _) = _
    rw [hsigned]
    change (ethereumRecoveryId _ keyShare (BigEndian.toNat tx) _ _ >>= _) = _
    cases ethereumRecoveryId protocol.sha256 keyShare (BigEndian.toNat tx) (scalarBytes sig.r)
      (scalarBytes sig.s) with
    | error e => rfl
    | ok v => rfl
  rw [hreturn]
  apply Iff.intro
  · intro h
    obtain ⟨v, hv, rfl⟩ := map_eq_ok h
    obtain ⟨id, rfl, hid⟩ := (ethereumRecoveryId_eq_ok run.low).1 hv
    exact ⟨id, rfl, hid⟩
  · intro h
    obtain ⟨id, rfl, hid⟩ := h
    rw [(ethereumRecoveryId_eq_ok run.low).2 ⟨id, rfl, hid⟩]
    rfl

/-- The answer gives back the key just when its id names the commitment. -/
theorem genuine_iff_names {Q : c.Point} (hQ : Q ≠ 0) (id : RecoveryId) (tx : Bytes) :
    Genuine Q tx ⟨scalarBytes sig.r, scalarBytes sig.s, id.toByte.toUInt32⟩ ↔
      sig.Names id (sig.commitment (BigEndian.toNat tx) Q) := by
  rw [genuine_iff_recover, Signature.recover_eq_some]
  exact and_iff_right hQ

theorem toUInt32_toByte_iff (id : RecoveryId) :
    id.toByte.toUInt32 = 0 ∨ id.toByte.toUInt32 = 1 ↔ id.isXReduced = false := by
  obtain ⟨odd, reduced⟩ := id
  revert odd reduced
  decide

/-- The id is right, and found when there is one, just when the digest hashed once more names
no other point with the signature. -/
theorem recoveryId_iff (run : SignedRun protocol txId index executionId tx keyShare sig) :
    ((∀ m, protocol.signTx txId index executionId tx keyShare .ethereum = .ok m →
        (m.v = 0 ∨ m.v = 1) ∧ Genuine keyShare.sharedPublicKey tx m) ∧
      (c.x (sig.commitment (BigEndian.toNat tx) keyShare.sharedPublicKey) < c.order →
        ∃ m, protocol.signTx txId index executionId tx keyShare .ethereum = .ok m)) ↔
    ∀ h, prehashScalar c (protocol.sha256 (scalarBytes (BigEndian.toNat tx : c.Scalar))) = some h →
      sig.Candidate (sig.commitment h keyShare.sharedPublicKey) →
      sig.commitment h keyShare.sharedPublicKey =
          sig.commitment (BigEndian.toNat tx) keyShare.sharedPublicKey ∧
        c.x (sig.commitment (BigEndian.toNat tx) keyShare.sharedPublicKey) < c.order := by
  apply Iff.intro
  · intro hright h hhash hc
    obtain ⟨id, hn⟩ := Signature.candidate_iff.1 hc
    have hm := run.signTx_eq_ok.2 ⟨id, rfl, .trial h hhash hn⟩
    obtain ⟨hv, hg⟩ := hright.1 _ hm
    have hnames := (genuine_iff_names keyShare.nonzero id tx).1 hg
    exact ⟨hn.point_eq hnames, hnames.x_lt ((toUInt32_toByte_iff id).1 hv)⟩
  · intro hagree
    apply And.intro
    · intro m hm
      obtain ⟨id, rfl, hid⟩ := run.signTx_eq_ok.1 hm
      rw [genuine_iff_names keyShare.nonzero, toUInt32_toByte_iff]
      cases hid with
      | trial h hhash hn =>
        obtain ⟨heq, hx⟩ := hagree h hhash (Signature.candidate_iff.2 ⟨id, hn⟩)
        rw [heq] at hn
        rw [hn.id_eq (run.valid.names hx)]
        exact ⟨rfl, run.valid.names hx⟩
      | manual _ hx hn => exact ⟨hx, hn⟩
    · intro hx
      by_cases hhit : ∃ h, prehashScalar c
          (protocol.sha256 (scalarBytes (BigEndian.toNat tx : c.Scalar))) = some h ∧
            sig.Candidate (sig.commitment h keyShare.sharedPublicKey)
      · obtain ⟨h, hhash, hc⟩ := hhit
        obtain ⟨id, hn⟩ := Signature.candidate_iff.1 hc
        exact ⟨_, run.signTx_eq_ok.2 ⟨id, rfl, .trial h hhash hn⟩⟩
      · have hmissed := fun h hhash hc => hhit ⟨h, hhash, hc⟩
        exact ⟨_, run.signTx_eq_ok.2 ⟨_, rfl, .manual hmissed rfl (run.valid.names hx)⟩⟩

end

/-- A signature of the small curve, valid on 30 under the generator as the key. -/
def tinySignature : Signature tiny :=
  ⟨2, 1, by decide, by decide⟩

theorem tinyGen_ne : tiny.gen ≠ 0 := by decide

def tinyGenShare : KeyShare tiny := ⟨0, tiny.gen, tinyGen_ne⟩

theorem tinySignature_commitment (z : tiny.Scalar) (Q : tiny.Point) :
    tinySignature.commitment z Q = z • tiny.gen + (2 : tiny.Scalar) • Q := by
  rw [Signature.commitment]
  change (z / 1) • tiny.gen + ((2 : tiny.Scalar) / 1) • Q = _
  rw [div_one, div_one]

def tinyDigest (n : UInt8) : Bytes := List.replicate 31 0 ++ [n]

/-- A run on the small curve with a hash that always gives the same digest. -/
def tinyProtocol (n : UInt8) : Protocol tiny :=
  ⟨fun _ => tinyDigest n, fun _ _ => .ok (), fun _ => .ok tinySignature⟩

theorem tinyProtocol_run (n : UInt8) :
    SignedRun (tinyProtocol n) 1 0 [] (tinyDigest 30) tinyGenShare tinySignature where
  joined := rfl
  signed := rfl
  low := by decide
  valid := by
    rw [Signature.Valid, tinySignature_commitment]
    decide

theorem tinyProtocol_missed {Q : tiny.Point} (z : tiny.Scalar)
    (hQ : ¬tinySignature.Candidate ((1 : tiny.Scalar) • tiny.gen + (2 : tiny.Scalar) • Q))
    (h : tiny.Scalar)
    (hhash : prehashScalar tiny ((tinyProtocol 1).sha256 (scalarBytes z)) = some h) :
    ¬tinySignature.Candidate (tinySignature.commitment h Q) := by
  have hone : prehashScalar tiny (tinyDigest 1) = some (1 : tiny.Scalar) :=
    (prehashScalar_of_length rfl).trans rfl
  obtain rfl := Option.some.inj (hone.symm.trans hhash)
  rw [tinySignature_commitment]
  exact hQ

/-- With a hash whose point has another x-coordinate, the id is right. -/
theorem recoveryId_tiny :
    (∀ m, (tinyProtocol 1).signTx 1 0 [] (tinyDigest 30) tinyGenShare .ethereum = .ok m →
      (m.v = 0 ∨ m.v = 1) ∧ Genuine tiny.gen (tinyDigest 30) m) ∧
    (tiny.x (tinySignature.commitment (BigEndian.toNat (tinyDigest 30))
        tinyGenShare.sharedPublicKey) < tiny.order →
      ∃ m, (tinyProtocol 1).signTx 1 0 [] (tinyDigest 30) tinyGenShare .ethereum = .ok m) := by
  apply (recoveryId_iff (tinyProtocol_run 1)).2
  intro h hhash hc
  exact absurd hc (tinyProtocol_missed _ (by decide) h hhash)

/-- With a hash that leads to the other point of the same x-coordinate, the id is wrong. -/
theorem rehash_misleads :
    SignedRun (tinyProtocol 28) 1 0 [] (tinyDigest 30) tinyGenShare tinySignature ∧
      (tinyProtocol 28).signTx 1 0 [] (tinyDigest 30) tinyGenShare .ethereum =
        .ok ⟨scalarBytes tinySignature.r, scalarBytes tinySignature.s, 1⟩ ∧
      ¬Genuine tiny.gen (tinyDigest 30)
        ⟨scalarBytes tinySignature.r, scalarBytes tinySignature.s, 1⟩ := by
  apply And.intro (tinyProtocol_run 28)
  apply And.intro
  · have hnames : tinySignature.Names ⟨true, false⟩ (tinySignature.commitment
        (BigEndian.toNat (tinyDigest 28)) tinyGenShare.sharedPublicKey) := by
      rw [tinySignature_commitment]
      exact ⟨by decide, by decide, by decide⟩
    exact (tinyProtocol_run 28).signTx_eq_ok.2
      ⟨_, rfl, .trial _ (prehashScalar_of_length rfl) hnames⟩
  · intro h
    have hn := (genuine_iff_names tinyGenShare.nonzero ⟨true, false⟩ (tinyDigest 30)).1 h
    have hodd := hn.yOdd_eq
    rw [tinySignature_commitment] at hodd
    exact absurd hodd (by decide)

end WalletMpc.Participant
