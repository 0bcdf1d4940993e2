import WalletMpc.Signer

namespace WalletMpc.MpcClient
open Ecdsa Proto Participant
set_option autoImplicit true

/-- How the clients of one call come to their answers: the gateway in any way at all, a local
participant through the protocol runs of its handler unless the call is lost. -/
structure Answers (c : Curve) where
  gateway : SignMessage → Reply
  lost : Nat → Option Status
  protocol : Nat → Protocol c

variable {c : Curve}

def Answers.signTx (answers : Answers c) (platform : Platform c) (config : SignerConfig)
    (i : Nat) : Client → SignMessage → Reply
  | .gateway, message => answers.gateway message
  | .localParticipant, message =>
    match answers.lost i with
    | some status => .error status
    | none =>
      match config.participantServer platform with
      | .error e => .error ⟨.unavailable, e⟩
      | .ok server => server.handler.signTx (answers.protocol i) message

/-- When the answer of a client is a real signature: the gateway's if it happens to be one, a
local one if hashing the digest once more did not mislead the trial recovery. -/
def Answers.Sound (answers : Answers c) (keyShare : KeyShare c) (message : SignMessage) (i : Nat)
    (m : SignatureMessage) : Client → Prop
  | .gateway => Genuine keyShare.sharedPublicKey message.data m
  | .localParticipant => ∀ signature,
      (answers.protocol i).sign
        (signingArgs keyShare.i message.executionId message.data keyShare) = .ok signature →
      TrialAgrees (answers.protocol i).sha256 keyShare.sharedPublicKey
        (BigEndian.toNat message.data) signature

section
variable {platform : Platform c} {answers : Answers c} {message : SignMessage}

theorem Answers.signTx_local (hchain : message.chain = Chain.ethereum.toInt32)
    (hheld : config.keyShare platform message.accountId = some keyShare)
    (h : answers.signTx platform config i .localParticipant message = .ok m) :
    ∃ signature, (answers.protocol i).sign
        (signingArgs keyShare.i message.executionId message.data keyShare) = .ok signature ∧
      m.r = scalarBytes signature.r ∧ m.s = scalarBytes signature.s ∧
      ethereumRecoveryId (answers.protocol i).sha256 keyShare (BigEndian.toNat message.data)
        m.r m.s = .ok m.v := by
  rw [Answers.signTx] at h
  cases hlost : answers.lost i with
  | some status =>
    rw [hlost] at h
    cases h
  | none =>
    rw [hlost] at h
    dsimp only at h
    cases hs : config.participantServer platform with
    | error e =>
      rw [hs] at h
      cases h
    | ok server =>
      rw [hs] at h
      obtain ⟨chain, keyShare', htry, hlookup, hsign⟩ := ParticipantHandler.signTx_ok h
      rw [hchain, Chain.tryFrom_toInt32] at htry
      cases htry
      rw [participantServer_lookup hs, hheld] at hlookup
      cases hlookup
      exact Protocol.signTx_ok hsign

theorem Answers.genuine_iff (hchain : message.chain = Chain.ethereum.toInt32)
    (hheld : config.keyShare platform message.accountId = some keyShare)
    (h : answers.signTx platform config i client message = .ok m) :
    Genuine keyShare.sharedPublicKey message.data m ↔
      answers.Sound keyShare message i m client := by
  cases client with
  | gateway => exact Iff.rfl
  | localParticipant =>
    obtain ⟨signature, hsign, hr, hs, hid⟩ := Answers.signTx_local hchain hheld h
    have hm : m = ⟨scalarBytes signature.r, scalarBytes signature.s, m.v⟩ := by
      rw [← hr, ← hs]
    rw [hr, hs] at hid
    rw [hm, ethereumRecoveryId_genuine hid]
    apply Iff.intro
    · intro ht signature' hsign'
      cases hsign.symm.trans hsign'
      exact ht
    · intro ht
      exact ht signature hsign

end

theorem Signer.sign_ok_iff {signer : Signer} {signTx : Nat → Client → SignMessage → Reply}
    (hknown : (signer.config.keyShares.any fun data => data.accountId = accountId) = true) :
    (signer.sign signTx executionId data accountId).2 = .ok sig ↔
      ∃ i, First (signer.results signTx (signer.message executionId data accountId)) i sig := by
  rw [Signer.sign]
  rw [if_pos hknown]
  exact collect_ok_iff _

theorem Signer.results_getElem? {signer : Signer} {signTx : Nat → Client → SignMessage → Reply}
    {message : SignMessage} (h : (signer.results signTx message)[i]? = some reply) : ∃ client,
      signer.allParticipantClients[i]? = some client ∧ reply = signTx i client message := by
  rw [Signer.results] at h
  rw [List.getElem?_mapIdx] at h
  obtain ⟨client, hclient, rfl⟩ := Option.map_eq_some_iff.1 h
  rw [List.getElem?_take] at hclient
  split at hclient
  · exact ⟨client, hclient, rfl⟩
  · cases hclient

/-- What `Signer::sign` returns is a real signature just when the first answer that is no error
comes from a client whose answer is one. -/
theorem Signer.sign_genuine_iff (platform : Platform c) (signer : Signer) (answers : Answers c)
    (executionId data : Bytes) (accountId : String) :
    (∀ sig keyShare,
      (signer.sign (answers.signTx platform signer.config) executionId data accountId).2 =
        .ok sig →
      signer.config.keyShare platform accountId = some keyShare →
      Genuine keyShare.sharedPublicKey data sig) ↔
    ∀ i m client keyShare,
      First (signer.results (answers.signTx platform signer.config)
        (signer.message executionId data accountId)) i m →
      signer.allParticipantClients[i]? = some client →
      signer.config.keyShare platform accountId = some keyShare →
      answers.Sound keyShare (signer.message executionId data accountId) i m client := by
  apply Iff.intro
  · intro h i m client keyShare hfirst hclient hheld
    obtain ⟨client', hclient', hreply⟩ := Signer.results_getElem? hfirst.answer
    cases hclient.symm.trans hclient'
    apply (Answers.genuine_iff rfl hheld hreply.symm).1
    exact h m keyShare ((Signer.sign_ok_iff (keyShare_known hheld)).2 ⟨i, hfirst⟩) hheld
  · intro h sig keyShare hsign hheld
    obtain ⟨i, hfirst⟩ := (Signer.sign_ok_iff (keyShare_known hheld)).1 hsign
    obtain ⟨client, hclient, hreply⟩ := Signer.results_getElem? hfirst.answer
    have hsound := h i sig client keyShare hfirst hclient hheld
    have hchain : (signer.message executionId data accountId).chain =
        Chain.ethereum.toInt32 := rfl
    exact (Answers.genuine_iff hchain hheld hreply.symm).2 hsound

def aliceSigner : Signer where
  config := aliceSignerConfig
  localParticipantServer := none
  localParticipantHandle := none
  allParticipantClients := [.gateway, .localParticipant]
  instanceId := 0
  txCounter := 0

def forgedAnswers : Answers tiny where
  gateway _ := .ok ⟨[], [], 0⟩
  lost _ := none
  protocol _ := ⟨id, fun _ _ => .ok (), fun _ => .error "aborted"⟩

/-- The empty signature is returned, although it is none. -/
theorem forged_signature :
    (aliceSigner.sign (forgedAnswers.signTx tinyPlatform aliceSigner.config) [1]
        (List.replicate 32 7) "alice").2 = .ok ⟨[], [], 0⟩ ∧
      (aliceSigner.config.keyShare tinyPlatform "alice").map KeyShare.sharedPublicKey =
        some tiny.gen ∧
      ¬Genuine tiny.gen (List.replicate 32 7) ⟨[], [], 0⟩ := by
  apply And.intro rfl
  apply And.intro rfl
  intro h
  obtain ⟨sig, _, hsig, _⟩ := h
  change Signature.ofNat tiny 0 0 = some sig at hsig
  rw [Signature.ofNat, dif_neg fun h => h.1 Nat.cast_zero] at hsig
  cases hsig

end WalletMpc.MpcClient
