import WalletMpc.Fallible
import WalletMpc.KeyRecovery
import WalletMpc.Proto
import WalletMpc.Isolation

namespace WalletMpc.Participant
open Fallible Ecdsa Proto
set_option autoImplicit true

/-- The fields of a key share that signing reads; the key is a `NonZero` point. -/
structure KeyShare (c : Curve) where
  i : UInt16
  sharedPublicKey : c.Point
  nonzero : sharedPublicKey ≠ 0

/-- What `cggmp21::signing` and the `sign` of its builder are called with. -/
structure SigningArgs (c : Curve) where
  executionId : Bytes
  i : UInt16
  partiesIndexesAtKeygen : List UInt16
  keyShare : KeyShare c
  data : c.Scalar

/-- The hash of the trial recovery, and for one call how joining the room and the protocol
with the other parties come out. -/
structure Protocol (c : Curve) where
  sha256 : Bytes → Bytes
  joinRoom : String → UInt16 → Except String Unit
  sign : SigningArgs c → Except String (Signature c)

variable {c : Curve}

def signingArgs (index : UInt16) (executionId tx : Bytes) (keyShare : KeyShare c) :
    SigningArgs c where
  executionId := executionId
  i := index
  partiesIndexesAtKeygen := [0, 1]
  keyShare := keyShare
  data := BigEndian.toNat tx

def manualRecovery (Q : c.Point) (msg : Bytes) (sig : Signature c) : Option Nat :=
  [0, 1].find? fun testId =>
    (RecoveryId.fromByte testId).bind (recoverFromPrehash msg sig) = some Q

/-- The Ethereum branch of `Signing::sign_tx`. -/
def ethereumRecoveryId (sha256 : Bytes → Bytes) (keyShare : KeyShare c) (data : c.Scalar)
    (rBytes sBytes : Bytes) : Except String UInt32 :=
  match Signature.fromSlice c (rBytes ++ sBytes) with
  | none => .error "signature error"
  | some sig =>
    match trialRecoveryFromMsg sha256 keyShare.sharedPublicKey (scalarBytes data) sig with
    | some recoveryId => .ok recoveryId.toByte.toUInt32
    | none =>
      match manualRecovery keyShare.sharedPublicKey (scalarBytes data) sig with
      | some testId => .ok (UInt32.ofNat testId)
      | none => .error "Cannot determine recovery ID"

/-- `Signing::sign_tx` in the room of its transaction. -/
def Protocol.signTx (protocol : Protocol c) (txId : Int32) (index : UInt16)
    (executionId tx : Bytes) (keyShare : KeyShare c) (chain : Chain) :
    Except String SignatureMessage := do
  protocol.joinRoom (signingRoom txId) index
  let args := signingArgs index executionId tx keyShare
  let signature ← protocol.sign args
  let rBytes := scalarBytes signature.r
  let sBytes := scalarBytes signature.s
  let recoveryId ← match chain with
    | .ethereum => ethereumRecoveryId protocol.sha256 keyShare args.data rBytes sBytes
    | .bitcoin => .ok 0
  return ⟨rBytes, sBytes, recoveryId⟩

structure ParticipantHandler (c : Curve) where
  keyShares : Accounts (KeyShare c)
  nonempty : keyShares.keys ≠ ∅

def ParticipantHandler.new (keyShares : Accounts (KeyShare c)) :
    Except String (ParticipantHandler c) :=
  if h : keyShares.keys = ∅ then .error "Key shares cannot be empty" else .ok ⟨keyShares, h⟩

def ParticipantHandler.getKeyShareByAccountId (handler : ParticipantHandler c)
    (accountId : String) : Except String (KeyShare c × UInt16) :=
  match handler.keyShares.lookup accountId with
  | some keyShare => .ok (keyShare, keyShare.i)
  | none => .error ("Key share not found for account_id: " ++ accountId)

/-- The checks of the handler, up to the share and the index it signs with. -/
def ParticipantHandler.prepare (handler : ParticipantHandler c) (req : SignMessage) :
    Except Status (Chain × KeyShare c × UInt16) :=
  match Chain.tryFrom req.chain with
  | none => .error ⟨.internal, "Invalid chain"⟩
  | some chain =>
    if req.accountId = "" then .error ⟨.invalidArgument, "account_id cannot be empty"⟩
    else match handler.getKeyShareByAccountId req.accountId with
      | .error _ =>
        .error ⟨.notFound, "Key share not found for account_id: " ++ req.accountId⟩
      | .ok (keyShare, signingIndex) => .ok (chain, keyShare, signingIndex)

def ParticipantHandler.signTx (handler : ParticipantHandler c) (protocol : Protocol c)
    (req : SignMessage) : Reply :=
  match handler.prepare req with
  | .error status => .error status
  | .ok (chain, keyShare, signingIndex) =>
    (protocol.signTx req.txId signingIndex req.executionId req.data keyShare chain).mapError
      fun _ => ⟨.internal, "Transaction signing failed"⟩

theorem ParticipantHandler.prepare_ok {handler : ParticipantHandler c}
    (h : handler.prepare req = .ok (chain, keyShare, index)) :
    Chain.tryFrom req.chain = some chain ∧ handler.keyShares.lookup req.accountId = some keyShare ∧
      index = keyShare.i := by
  rw [ParticipantHandler.prepare] at h
  split at h
  · cases h
  · rename_i chain' hchain
    split at h
    · cases h
    · rw [ParticipantHandler.getKeyShareByAccountId] at h
      cases hs : handler.keyShares.lookup req.accountId with
      | none =>
        rw [hs] at h
        cases h
      | some keyShare' =>
        rw [hs] at h
        cases h
        exact ⟨hchain, rfl, rfl⟩

theorem ParticipantHandler.prepare_eq {handler : ParticipantHandler c}
    (hc : Chain.tryFrom req.chain = some chain) (ha : req.accountId ≠ "")
    (hs : handler.keyShares.lookup req.accountId = some keyShare) :
    handler.prepare req = .ok (chain, keyShare, keyShare.i) := by
  rw [ParticipantHandler.prepare]
  rw [hc]
  dsimp only
  rw [if_neg ha, ParticipantHandler.getKeyShareByAccountId, hs]

theorem ParticipantHandler.prepare_unnamed {handler : ParticipantHandler c}
    (hc : Chain.tryFrom req.chain = some chain) (ha : req.accountId = "") :
    handler.prepare req = .error ⟨.invalidArgument, "account_id cannot be empty"⟩ := by
  rw [ParticipantHandler.prepare]
  rw [hc]
  exact if_pos ha

theorem Protocol.signTx_ok {protocol : Protocol c}
    (h : protocol.signTx txId index executionId tx keyShare .ethereum = .ok m) :
    ∃ signature, protocol.sign (signingArgs index executionId tx keyShare) = .ok signature ∧
      m.r = scalarBytes signature.r ∧ m.s = scalarBytes signature.s ∧
      ethereumRecoveryId protocol.sha256 keyShare (BigEndian.toNat tx) m.r m.s = .ok m.v := by
  rw [Protocol.signTx] at h
  obtain ⟨_, _, h⟩ := bind_eq_ok h
  obtain ⟨signature, hsign, h⟩ := bind_eq_ok h
  obtain ⟨recoveryId, hid, h⟩ := bind_eq_ok h
  cases h
  exact ⟨signature, hsign, rfl, rfl, hid⟩

theorem ParticipantHandler.signTx_ok {handler : ParticipantHandler c} {protocol : Protocol c}
    (h : handler.signTx protocol req = .ok m) : ∃ chain keyShare,
      Chain.tryFrom req.chain = some chain ∧
      handler.keyShares.lookup req.accountId = some keyShare ∧
      protocol.signTx req.txId keyShare.i req.executionId req.data keyShare chain = .ok m := by
  rw [ParticipantHandler.signTx] at h
  cases hp : handler.prepare req with
  | error status =>
    rw [hp] at h
    cases h
  | ok r =>
    obtain ⟨chain, keyShare, index⟩ := r
    obtain ⟨hchain, hshare, rfl⟩ := ParticipantHandler.prepare_ok hp
    rw [hp] at h
    exact ⟨chain, keyShare, hchain, hshare, mapError_eq_ok h⟩

/-- A real signature: valid on the digest under the key, and v tells the key. -/
def Genuine (Q : c.Point) (digest : Bytes) (m : SignatureMessage) : Prop :=
  ∃ sig recoveryId, Signature.ofNat c (BigEndian.toNat m.r) (BigEndian.toNat m.s) = some sig ∧
    RecoveryId.fromByte m.v.toNat = some recoveryId ∧ sig.Valid (BigEndian.toNat digest) Q ∧
    sig.recover (BigEndian.toNat digest) recoveryId = some Q

/-- The trial recovery, which hashes the digest once more, finds nothing or an id that also
fits the digest itself. -/
def TrialAgrees (sha256 : Bytes → Bytes) (Q : c.Point) (z : c.Scalar) (sig : Signature c) : Prop :=
  ∀ recoveryId, trialRecoveryFromMsg sha256 Q (scalarBytes z) sig = some recoveryId →
    sig.recover z recoveryId = some Q

theorem genuine_iff_recover (Q : c.Point) (tx : Bytes) (sig : Signature c) (id : RecoveryId) :
    Genuine Q tx ⟨scalarBytes sig.r, scalarBytes sig.s, id.toByte.toUInt32⟩ ↔
      sig.recover (BigEndian.toNat tx) id = some Q := by
  have hsig : Signature.ofNat c (BigEndian.toNat (scalarBytes sig.r))
      (BigEndian.toNat (scalarBytes sig.s)) = some sig := by
    rw [toNat_scalarBytes, toNat_scalarBytes, Signature.ofNat_val]
  have hid : RecoveryId.fromByte id.toByte.toUInt32.toNat = some id := by
    rw [UInt8.toNat_toUInt32]
    exact id.fromByte_toByte
  apply Iff.intro
  · intro h
    obtain ⟨sig', id', hsig', hid', _, hrec⟩ := h
    cases hsig.symm.trans hsig'
    cases hid.symm.trans hid'
    exact hrec
  · intro h
    exact ⟨sig, id, hsig, hid, Signature.recover_valid h, h⟩

theorem manualRecovery_some {Q : c.Point} {z : c.Scalar} {sig : Signature c}
    (h : manualRecovery Q (scalarBytes z) sig = some testId) :
    ∃ id : RecoveryId, id.toByte.toNat = testId ∧ sig.recover z id = some Q := by
  have hfound := List.find?_some h
  obtain ⟨id, hid, hrec⟩ := Option.bind_eq_some_iff.1 (of_decide_eq_true hfound)
  have hz := recover_of_recoverFromPrehash (length_scalarBytes z) hrec
  rw [toNat_scalarBytes, ZMod.natCast_zmod_val] at hz
  exact ⟨id, RecoveryId.fromByte_eq_some.1 hid, hz⟩

/-- A local answer is real just when the trial recovery does not mislead it. -/
theorem ethereumRecoveryId_genuine {keyShare : KeyShare c} {sig : Signature c} {tx : Bytes}
    (h : ethereumRecoveryId sha256 keyShare (BigEndian.toNat tx) (scalarBytes sig.r)
      (scalarBytes sig.s) = .ok v) :
    Genuine keyShare.sharedPublicKey tx ⟨scalarBytes sig.r, scalarBytes sig.s, v⟩ ↔
      TrialAgrees sha256 keyShare.sharedPublicKey (BigEndian.toNat tx) sig := by
  rw [ethereumRecoveryId] at h
  rw [Signature.fromSlice_scalarBytes] at h
  dsimp only at h
  split at h
  · rename_i id htrial
    cases h
    rw [genuine_iff_recover]
    apply Iff.intro
    · intro hrec other hother
      cases htrial.symm.trans hother
      exact hrec
    · intro ht
      exact ht id htrial
  · rename_i htrial
    split at h
    · rename_i testId hmanual
      cases h
      obtain ⟨id, rfl, hrec⟩ := manualRecovery_some hmanual
      rw [UInt32.ofNat_uInt8ToNat, genuine_iff_recover]
      apply Iff.intro
      · intro _ other hother
        cases htrial.symm.trans hother
      · intro _
        exact hrec
    · cases h

end WalletMpc.Participant
