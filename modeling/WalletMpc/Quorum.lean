import WalletMpc.Signing
import WalletMpc.Dealer

namespace WalletMpc.Participant
open Fallible Ecdsa Proto KeyGen
set_option autoImplicit true

variable {c : Curve}

/-- What `cggmp21::signing` asks of its arguments, for a sharing among n parties. -/
structure Usable (n threshold : UInt16) (args : SigningArgs c) : Prop where
  distinct : args.partiesIndexesAtKeygen.Nodup
  indexes : ∀ k ∈ args.partiesIndexesAtKeygen, k.toNat < n.toNat
  enough : threshold.toNat ≤ args.partiesIndexesAtKeygen.length
  position : args.partiesIndexesAtKeygen[args.i.toNat]? = some args.keyShare.i

/-- The arguments that a request is signed with. -/
def ParticipantHandler.arguments (handler : ParticipantHandler c) (req : SignMessage) :
    Except Status (SigningArgs c) :=
  (handler.prepare req).map fun (_, keyShare, signingIndex) =>
    signingArgs signingIndex req.executionId req.data keyShare

theorem ParticipantHandler.signTx_arguments {handler : ParticipantHandler c}
    {protocol : Protocol c} (h : handler.signTx protocol req = .ok m) :
    ∃ args signature, handler.arguments req = .ok args ∧ protocol.sign args = .ok signature := by
  rw [ParticipantHandler.signTx] at h
  rw [ParticipantHandler.arguments]
  cases hp : handler.prepare req with
  | error status =>
    rw [hp] at h
    cases h
  | ok r =>
    obtain ⟨chain, keyShare, index⟩ := r
    rw [hp] at h
    have hs := mapError_eq_ok h
    rw [Protocol.signTx] at hs
    obtain ⟨_, _, hs⟩ := bind_eq_ok hs
    obtain ⟨signature, hsign, _⟩ := bind_eq_ok hs
    exact ⟨_, signature, rfl, hsign⟩

theorem ParticipantHandler.arguments_ok {handler : ParticipantHandler c}
    (hc : (Chain.tryFrom req.chain).isSome) (ha : req.accountId ≠ "")
    (hs : handler.keyShares.lookup req.accountId = some keyShare) :
    handler.arguments req =
      .ok (signingArgs keyShare.i req.executionId req.data keyShare) := by
  obtain ⟨chain, hchain⟩ := Option.isSome_iff_exists.1 hc
  rw [ParticipantHandler.arguments, ParticipantHandler.prepare_eq hchain ha hs]
  rfl

theorem ParticipantHandler.arguments_unnamed {handler : ParticipantHandler c}
    (ha : req.accountId = "") : handler.arguments req ≠ .ok args := by
  intro h
  unfold ParticipantHandler.arguments ParticipantHandler.prepare at h
  cases hc : Chain.tryFrom req.chain with
  | none =>
    rw [hc] at h
    cases h
  | some chain =>
    rw [hc] at h
    dsimp only at h
    rw [if_pos ha] at h
    cases h

/-- The shares carry their positions, from 0. -/
def Numbered (shares : List (KeyShare c)) : Prop :=
  ∀ (k : Nat) (share : KeyShare c), shares[k]? = some share → share.i.toNat = k

/-- As many parties as the threshold, each with its share of the account and asked to sign. -/
structure Quorum (config : KeyGenConfig) (shares : List (KeyShare c)) where
  chosen : Finset (Fin shares.length)
  card : chosen.card = config.threshold.toNat
  handler : Fin shares.length → ParticipantHandler c
  request : Fin shares.length → SignMessage
  holds : ∀ k ∈ chosen, (handler k).keyShares.lookup config.accountId = some shares[k]
  asked : ∀ k ∈ chosen, (request k).accountId = config.accountId
  chain : ∀ k ∈ chosen, (Chain.tryFrom (request k).chain).isSome

/-- Every party comes to usable arguments, and to the same list of parties. -/
def Quorum.Signs {shares : List (KeyShare c)} (q : Quorum config shares) : Prop :=
  ∃ parties, ∀ k ∈ q.chosen, ∃ args, (q.handler k).arguments (q.request k) = .ok args ∧
    args.partiesIndexesAtKeygen = parties ∧ Usable config.nParties config.threshold args

section
variable {config : KeyGenConfig} {shares : List (KeyShare c)}

theorem Quorum.named_of_signs {q : Quorum config shares} (hv : validateConfig config = .ok ())
    (h : q.Signs) : config.accountId ≠ "" := by
  have ht := (validateConfig_ok.1 hv).1
  have hcard := q.card
  obtain ⟨k, hk⟩ := Finset.card_pos.1 (show 0 < q.chosen.card by omega)
  obtain ⟨parties, h⟩ := h
  obtain ⟨args, hargs, _⟩ := h k hk
  intro ha
  exact ParticipantHandler.arguments_unnamed ((q.asked k hk).trans ha) hargs

theorem Quorum.arguments_ok (q : Quorum config shares) (ha : config.accountId ≠ "")
    (hk : k ∈ q.chosen) : (q.handler k).arguments (q.request k) =
      .ok (signingArgs shares[k].i (q.request k).executionId (q.request k).data shares[k]) := by
  have hasked := q.asked k hk
  apply ParticipantHandler.arguments_ok (q.chain k hk)
  · rw [hasked]
    exact ha
  · rw [hasked]
    exact q.holds k hk

theorem Numbered.index (hn : Numbered shares) (k : Fin shares.length) :
    shares[k].i.toNat = k.val :=
  hn k.val shares[k] (List.getElem?_eq_getElem k.isLt)

/-- The list [0, 1] has no position for the third share and those after it. -/
theorem Quorum.chosen_lt_two {q : Quorum config shares} (hv : validateConfig config = .ok ())
    (hn : Numbered shares) (h : q.Signs) (hk : k ∈ q.chosen) : k.val < 2 := by
  have ha := q.named_of_signs hv h
  obtain ⟨parties, h⟩ := h
  obtain ⟨args, hargs, _, husable⟩ := h k hk
  rw [q.arguments_ok ha hk] at hargs
  cases hargs
  have hpos := husable.position
  obtain ⟨hlt, _⟩ := List.getElem?_eq_some_iff.1 hpos
  rw [← hn.index k]
  exact hlt

theorem usable_of_lt_two {share : KeyShare c} (hn : 2 ≤ n.toNat) (ht : threshold.toNat ≤ 2)
    (hi : share.i.toNat < 2) (executionId tx : Bytes) :
    Usable n threshold (signingArgs share.i executionId tx share) where
  distinct := by
    change ([0, 1] : List UInt16).Nodup
    decide
  indexes := by
    intro k hk
    change k ∈ [0, 1] at hk
    obtain rfl | rfl := List.mem_pair.1 hk
    · exact Nat.lt_of_lt_of_le (by decide) hn
    · exact Nat.lt_of_lt_of_le (by decide) hn
  enough := ht
  position := by
    change ([0, 1] : List UInt16)[share.i.toNat]? = some share.i
    have hcases : share.i.toNat = 0 ∨ share.i.toNat = 1 := by omega
    obtain h | h := hcases
    · rw [h, UInt16.toNat_inj.1 (h.trans UInt16.toNat_zero.symm)]
      rfl
    · rw [h, UInt16.toNat_inj.1 (h.trans UInt16.toNat_one.symm)]
      rfl

end

/-- A dealt sharing signs with just the shares of indexes 0 and 1, so with threshold 2. -/
theorem signs_iff {trusted : TrustedDealer (KeyShare c)}
    {dealer dealer' : KeyShareDealer (KeyShare c)}
    (numbered : ∀ n t secret shares, trusted.generate n t secret = .ok shares → Numbered shares)
    (hg : dealer.generateShares trusted order = .ok dealer')
    (hs : dealer'.keyShares = some shares) (q : Quorum dealer.config shares) :
    q.Signs ↔ dealer.config.accountId ≠ "" ∧ q.chosen.image Fin.val = {0, 1} := by
  have hn : Numbered shares := by
    obtain ⟨secret, dealt, hdealt, rfl⟩ := KeyShareDealer.generateShares_ok hg
    cases hs
    exact numbered _ _ _ _ hdealt
  obtain ⟨ht, hle⟩ := validateConfig_ok.1 dealer.valid
  have hinj : (q.chosen.image Fin.val).card = dealer.config.threshold.toNat :=
    (Finset.card_image_of_injective _ Fin.val_injective).trans q.card
  apply Iff.intro
  · intro h
    apply And.intro (q.named_of_signs dealer.valid h)
    apply Finset.eq_of_subset_of_card_le
    · intro i hi
      obtain ⟨k, hk, rfl⟩ := Finset.mem_image.1 hi
      have hlt := q.chosen_lt_two dealer.valid hn h hk
      rw [Finset.mem_insert, Finset.mem_singleton]
      omega
    · rw [hinj]
      exact ht
  · intro h
    obtain ⟨ha, hchosen⟩ := h
    exists [0, 1]
    intro k hk
    have hk2 : k.val ∈ q.chosen.image Fin.val := Finset.mem_image_of_mem _ hk
    rw [hchosen, Finset.mem_insert, Finset.mem_singleton] at hk2
    rw [hchosen] at hinj
    have hi := hn.index k
    have husable := usable_of_lt_two (Nat.le_trans ht hle) (Nat.le_of_eq hinj.symm)
      (show shares[k].i.toNat < 2 by omega) (q.request k).executionId (q.request k).data
    exact ⟨_, q.arguments_ok ha hk, rfl, husable⟩

/-- The whole dealing on the small curve: every share with its position and the shared key. -/
def tinyShares (n : UInt16) (key : tiny.Point) (h : key ≠ 0) : List (KeyShare tiny) :=
  (List.range n.toNat).map fun k => ⟨UInt16.ofNat k, key, h⟩

def tinyDealer : TrustedDealer (KeyShare tiny) where
  generate n _ secret :=
    if h : (secret : tiny.Scalar) • tiny.gen ≠ 0 then .ok (tinyShares n _ h)
    else .error "the shared secret key is zero"
  length_eq := by
    intro n t secret shares h
    split at h
    · cases h
      rw [tinyShares, List.length_map, List.length_range]
    · cases h

theorem tinyShares_numbered (n : UInt16) (h : key ≠ 0) : Numbered (tinyShares n key h) := by
  intro k share hk
  rw [tinyShares, List.getElem?_map] at hk
  obtain ⟨j, hj, rfl⟩ := Option.map_eq_some_iff.1 hk
  obtain ⟨hlt, rfl⟩ := List.getElem?_eq_some_iff.1 hj
  rw [List.length_range] at hlt
  rw [List.getElem_range]
  exact UInt16.toNat_ofNat_of_lt (Nat.lt_trans hlt n.toNat_lt)

theorem tinyDealer_numbered (n t : UInt16) (secret : Nat) (shares : List (KeyShare tiny))
    (h : tinyDealer.generate n t secret = .ok shares) : Numbered shares := by
  change (if h : _ then _ else _) = _ at h
  split at h
  · cases h
    exact tinyShares_numbered n _
  · cases h

def Quorum.ofShares (config : KeyGenConfig) (shares : List (KeyShare c))
    (chosen : Finset (Fin shares.length)) (card : chosen.card = config.threshold.toNat) :
    Quorum config shares where
  chosen := chosen
  card := card
  handler k := ⟨Finmap.singleton config.accountId shares[k], by
    rw [Finmap.keys_singleton]
    exact Finset.singleton_ne_empty _⟩
  request _ := ⟨1, [], Chain.ethereum.toInt32, [], config.accountId⟩
  holds _ _ := Finmap.lookup_singleton_eq
  asked _ _ := rfl
  chain _ _ := rfl

def tinyConfig (n threshold : UInt16) : KeyGenConfig where
  nParties := n
  threshold := threshold
  accountId := "high_security_account"
  childKey := List.replicate 31 0 ++ [5]
  outputPrefix := "key_shares"
  pubkeys := none

def tinyKey : tiny.Point := (5 : tiny.Scalar) • tiny.gen

theorem tinyKey_ne : tinyKey ≠ 0 := by decide

def tinyKeyDealer (n threshold : UInt16)
    (h : validateConfig (tinyConfig n threshold) = .ok ()) : KeyShareDealer (KeyShare tiny) :=
  ⟨tinyConfig n threshold, none, h⟩

theorem tinyKeyDealer_generates (h : validateConfig (tinyConfig n t) = .ok ()) :
    (tinyKeyDealer n t h).generateShares tinyDealer 31 =
      .ok ⟨tinyConfig n t, some (tinyShares n tinyKey tinyKey_ne), h⟩ :=
  rfl

def firstTwo : Quorum (tinyConfig 3 2) (tinyShares 3 tinyKey tinyKey_ne) :=
  .ofShares _ _ (Finset.univ.filter fun k => k.val < 2) rfl

def firstFive : Quorum (tinyConfig 7 5) (tinyShares 7 tinyKey tinyKey_ne) :=
  .ofShares _ _ (Finset.univ.filter fun k => k.val < 5) rfl

theorem firstTwo_signs : firstTwo.Signs :=
  (signs_iff tinyDealer_numbered (tinyKeyDealer_generates (n := 3) (t := 2) rfl) rfl firstTwo).2
    ⟨by decide, by decide⟩

/-- An accepted sharing whose parties cannot sign. -/
theorem firstFive_not_signs :
    (tinyKeyDealer 7 5 rfl).generateShares tinyDealer 31 =
      .ok ⟨tinyConfig 7 5, some (tinyShares 7 tinyKey tinyKey_ne), rfl⟩ ∧ ¬firstFive.Signs := by
  apply And.intro (tinyKeyDealer_generates rfl)
  intro h
  have hlt := Quorum.chosen_lt_two rfl (tinyShares_numbered 7 tinyKey_ne) h
    (k := (⟨2, by decide⟩ : Fin (tinyShares 7 tinyKey tinyKey_ne).length)) (by decide)
  exact absurd hlt (by decide)

end WalletMpc.Participant
