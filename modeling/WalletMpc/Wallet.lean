import WalletMpc.Appending
import WalletMpc.PublicKeys

namespace WalletMpc.Wallet
open Systems Proto Ecdsa Participant KeyGen Client
set_option autoImplicit true

variable {c : Curve}

def publicPoint (c : Curve) (childKey : Bytes) : c.Point :=
  (BigEndian.toNat childKey : c.Scalar) • c.gen

/-- The comparison that `verify_public_key` makes with the first share. -/
def isKeyOf (c : Curve) (childKey : Bytes) (keyShare : KeyShare c) : Bool :=
  hexEncode (compressed (publicPoint c childKey)) = hexEncode (compressed keyShare.sharedPublicKey)

theorem compressed_inj (sec1 : Sec1 c) {Q Q' : c.Point} (hQ : Q ≠ 0) (hQ' : Q' ≠ 0)
    (h : hexEncode (compressed Q) = hexEncode (compressed Q')) : Q = Q' := by
  obtain ⟨_, hx⟩ := List.cons.inj (hexEncode_inj h)
  let flat : Sec1 c := ⟨fun _ => 0, sec1.x_lt⟩
  apply flat.publicKeyHex_inj hQ hQ'
  exact Prod.ext h (congrArg (fun x => hexEncode (4 :: (x ++ BigEndian.ofNat 32 0))) hx)

theorem publicPoint_ne (hgen : c.gen ≠ 0)
    (h : createScalarFromBytes c.order childKey = .ok secret) : publicPoint c childKey ≠ 0 := by
  rw [createScalarFromBytes] at h
  split at h
  · cases h
  · rename_i hlt
    split at h
    · cases h
    · rename_i hne
      have hscalar : (BigEndian.toNat childKey : c.Scalar) ≠ 0 := by
        rw [Ne, ZMod.natCast_eq_zero_iff]
        intro hdvd
        exact hlt (Nat.le_of_dvd (Nat.pos_of_ne_zero hne) hdvd)
      exact smul_ne_zero hscalar hgen

/-- What `trusted_dealer` promises of the shares it deals: they carry their positions and one
public key. -/
structure Promises (trusted : TrustedDealer (KeyShare c)) : Prop where
  numbered : ∀ n t secret keyShares, trusted.generate n t secret = .ok keyShares →
    Numbered keyShares
  common : ∀ n t secret keyShares, trusted.generate n t secret = .ok keyShares →
    ∀ keyShare ∈ keyShares, ∀ other ∈ keyShares, keyShare.sharedPublicKey = other.sharedPublicKey

/-- A sharing of a child key among the parties of a configuration. -/
structure Sharing (config : KeyGenConfig) (keyShares : List (KeyShare c)) : Prop where
  valid : validateConfig config = .ok ()
  length_eq : keyShares.length = config.nParties.toNat
  numbered : Numbered keyShares
  key : ∀ keyShare ∈ keyShares, keyShare.sharedPublicKey = publicPoint c config.childKey

/-- A dealing whose first share passes the comparison is a sharing of the child key. -/
theorem sharing_of_dealt {trusted : TrustedDealer (KeyShare c)} (sec1 : Sec1 c) (hgen : c.gen ≠ 0)
    (hpromises : Promises trusted) {dealer dealt : KeyShareDealer (KeyShare c)}
    (hg : dealer.generateShares trusted c.order = .ok dealt)
    (hv : dealt.verifyPublicKey (isKeyOf c) = .ok ()) (hs : dealt.keyShares = some keyShares) :
    Sharing dealer.config keyShares := by
  rw [KeyShareDealer.generateShares] at hg
  cases hsecret : createScalarFromBytes c.order dealer.config.childKey with
  | error e =>
    rw [hsecret] at hg
    cases hg
  | ok secret =>
    rw [hsecret] at hg
    dsimp only at hg
    cases hdealt : trusted.generate dealer.config.nParties dealer.config.threshold secret with
    | error e =>
      rw [hdealt] at hg
      cases hg
    | ok dealtShares =>
      rw [hdealt] at hg
      cases hg
      cases hs
      refine ⟨dealer.valid, trusted.length_eq hdealt, hpromises.numbered _ _ _ _ hdealt, ?_⟩
      rw [KeyShareDealer.verifyPublicKey] at hv
      dsimp only at hv
      split at hv
      · cases hv
      · rename_i first hfirst
        split at hv
        · rename_i hkey
          have hpoint := compressed_inj sec1 (publicPoint_ne hgen hsecret) first.nonzero
            (of_decide_eq_true hkey)
          intro keyShare hmem
          rw [hpoint]
          exact hpromises.common _ _ _ _ hdealt _ hmem _ (List.mem_of_getElem? hfirst)
        · cases hv

section
variable {json : SerdeJson c T R J} {trusted : Nat → TrustedDealer (KeyShare c)}

/-- Every run that was saved is a sharing of its child key. -/
theorem sharing_of_reachable (sec1 : Sec1 c) (hgen : c.gen ≠ 0)
    (hpromises : ∀ call, Promises (trusted call))
    (h : (keyGenRuns json trusted (isKeyOf c) p).Reachable s) :
    ∀ run ∈ s.runs, Sharing run.1 run.2 := by
  apply h.invariant (I := fun s => ∀ run ∈ s.runs, Sharing run.1 run.2)
  · intro s h0
    rw [h0.2]
    exact List.forall_mem_nil _
  · intro s config t _ hi hst
    obtain ⟨_, dealer, dealt, keyShares, _, hnew, hg, hv, hs, _, hruns⟩ := hst
    obtain rfl := KeyShareDealer.new_ok hnew
    rw [hruns, List.forall_mem_append, List.forall_mem_singleton]
    exact ⟨hi, sharing_of_dealt sec1 hgen (hpromises _) hg hv hs⟩

end

/-- The last run for an account. -/
def lastRunFor (runs : List (KeyGenConfig × List K)) (a : String) :
    Option (KeyGenConfig × List K) :=
  runs.reverse.find? fun run => run.1.accountId = a

theorem mem_of_lastRunFor {runs : List (KeyGenConfig × List K)}
    (h : lastRunFor runs a = some run) : run ∈ runs ∧ run.1.accountId = a := by
  have hmem := List.mem_of_find?_eq_some h
  have hrun := List.find?_some h
  exact ⟨List.mem_reverse.1 hmem, of_decide_eq_true hrun⟩

/-- The parties of the last run for an account hold its shares. -/
theorem lastShare_of_lastRunFor {runs : List (KeyGenConfig × List K)}
    (h : lastRunFor runs a = some (config, keyShares)) (hi : keyShares[i]? = some keyShare) :
    lastShare runs a i = some keyShare := by
  rw [lastRunFor] at h
  rw [lastShare]
  generalize runs.reverse = latest at h
  induction latest with
  | nil => cases h
  | cons run rest ih =>
    rw [List.find?_cons] at h
    rw [List.findSome?_cons]
    by_cases ha : run.1.accountId = a
    · rw [decide_eq_true ha] at h
      cases h
      rw [if_pos ha, hi]
    · rw [decide_eq_false ha] at h
      rw [if_neg ha]
      exact ih h

/-- The text of a file, decrypted if it is encrypted. -/
def plaintext : Content T R → T
  | .text t => t
  | .age _ t => t

theorem keys_ne_of_lookup {m : Accounts K} (h : m.lookup a = some keyShare) : m.keys ≠ ∅ :=
  Finset.ne_empty_of_mem (Finmap.mem_keys.2 (Finmap.mem_of_lookup_eq_some h))

section
variable {json : SerdeJson c T R J}

/-- The file last written for a party with a share is read by both programs, once decrypted. -/
theorem readAs_of_partyFiles {s : DealtFiles T R (KeyShare c)}
    (h : PartyFiles json p s.dir i m (lastRun s.runs i)) (hm : m.keys ≠ ∅) :
    ∃ last content, lastRun s.runs i = some last ∧
      s.dir (last.outputFilename i) = some content ∧ ReadAs json (.text (plaintext content)) m := by
  generalize lastRun s.runs i = last at h
  cases h with
  | fresh => exact absurd rfl hm
  | plain hp hplain _ henc _ hb =>
    subst hp
    exact ⟨_, _, rfl, (congrArg s.dir (outputFilename_plain hplain)).trans hb,
      ReadAs.print _ henc hm⟩
  | encrypted hp hpubkeys _ _ henc hage =>
    subst hp
    exact ⟨_, _, rfl, (congrArg s.dir (outputFilename_encrypted hpubkeys)).trans hage,
      ReadAs.print _ henc hm⟩

end

section
variable {protocol : Protocol c} {keyShare : KeyShare c} {sig : Signature c}

/-- On a digest the client gets back the key of the share just when the trial recovery does not
mislead the party. -/
theorem recovers_iff (sec1 : Sec1 c)
    (run : SignedRun protocol txId index executionId data keyShare sig)
    (hdata : data.length = 32)
    (h : protocol.signTx txId index executionId data keyShare .ethereum = .ok m) :
    recoverPublicKey sec1 data m.r m.s m.v = .ok (sec1.publicKeyHex keyShare.sharedPublicKey) ↔
      TrialAgrees protocol.sha256 keyShare.sharedPublicKey (BigEndian.toNat data) sig := by
  obtain ⟨_, _, _, _, hid⟩ := Protocol.signTx_ok h
  obtain ⟨id, rfl, _⟩ := run.signTx_eq_ok.1 h
  rw [← ethereumRecoveryId_genuine hid, genuine_iff_names keyShare.nonzero,
    recoverPublicKey_eq_ok keyShare.nonzero, recoverFromPrehash_eq_some run.low keyShare.nonzero,
    prehashScalar_of_length hdata]
  apply Iff.intro
  · rintro ⟨z, hz, hnames⟩
    cases hz
    exact hnames
  · intro hnames
    exact ⟨_, rfl, hnames⟩

theorem usable_iff {config : KeyGenConfig} (hv : validateConfig config = .ok ())
    (hi : keyShare.i.toNat < 2) (executionId tx : Bytes) :
    Usable config.nParties config.threshold (signingArgs keyShare.i executionId tx keyShare) ↔
      config.threshold = 2 := by
  obtain ⟨ht, hn⟩ := validateConfig_ok.1 hv
  apply Iff.intro
  · intro h
    have hle : config.threshold.toNat ≤ 2 := h.enough
    exact UInt16.toNat_inj.1 (Nat.le_antisymm hle ht)
  · intro h
    have hle : config.threshold.toNat ≤ 2 := by rw [h]; decide
    exact usable_of_lt_two (Nat.le_trans ht hn) hle hi executionId tx

end

/-- A handler signs for an account with a share of this child key: it gets to the protocol with
that share, and what the protocol makes of a digest gives the client the key of the child key just
when the trial recovery agrees. -/
structure SignsWith (sec1 : Sec1 c) (config : KeyGenConfig) (handler : ParticipantHandler c)
    (keyShare : KeyShare c) (req : SignMessage) : Prop where
  arguments : handler.arguments req =
    .ok (signingArgs keyShare.i req.executionId req.data keyShare)
  usable : Usable config.nParties config.threshold
    (signingArgs keyShare.i req.executionId req.data keyShare) ↔ config.threshold = 2
  recovers : ∀ protocol sig answer,
    SignedRun protocol req.txId keyShare.i req.executionId req.data keyShare sig →
    req.data.length = 32 → handler.signTx protocol req = .ok answer →
    (recoverPublicKey sec1 req.data answer.r answer.s answer.v =
        .ok (sec1.publicKeyHex (publicPoint c config.childKey)) ↔
      TrialAgrees protocol.sha256 (publicPoint c config.childKey) (BigEndian.toNat req.data) sig)

theorem signsWith_of_lookup (sec1 : Sec1 c) {keyShares : List (KeyShare c)}
    (hsharing : Sharing config keyShares) (hat : keyShares[i]? = some keyShare) (hi : i < 2)
    {handler : ParticipantHandler c} (hlookup : handler.keyShares.lookup req.accountId = some keyShare)
    (hchain : Chain.tryFrom req.chain = some .ethereum) (ha : req.accountId ≠ "") :
    SignsWith sec1 config handler keyShare req := by
  have hkey := hsharing.key keyShare (List.mem_of_getElem? hat)
  have hindex := hsharing.numbered i keyShare hat
  have hprepare := ParticipantHandler.prepare_eq hchain ha hlookup
  constructor
  case arguments =>
    rw [ParticipantHandler.arguments, hprepare]
    rfl
  case usable => exact usable_iff hsharing.valid (hindex ▸ hi) _ _
  case recovers =>
    intro protocol sig answer hsigned hdata hanswer
    rw [ParticipantHandler.signTx, hprepare] at hanswer
    rw [← hkey]
    exact recovers_iff sec1 hsigned hdata (Fallible.mapError_eq_ok hanswer)

/-- After any runs of key-gen, the first two parties read back a share of the last child key for
an account, and sign for the account with it. -/
theorem signs_for_child_key {json : SerdeJson c T R J} {trusted : Nat → TrustedDealer (KeyShare c)}
    (sec1 : Sec1 c) (hgen : c.gen ≠ 0) (hpromises : ∀ call, Promises (trusted call))
    (h : (keyGenRuns json trusted (isKeyOf c) p).Reachable s)
    (hrun : lastRunFor s.runs a = some (config, keyShares)) (ha : a ≠ "") (hi : i < 2) :
    ∃ last content m handler keyShare, lastRun s.runs i = some last ∧
      s.dir (last.outputFilename i) = some content ∧
      ReadAs json (.text (plaintext content)) m ∧ ParticipantHandler.new m = .ok handler ∧
      keyShare.i.toNat = i ∧ keyShare.sharedPublicKey = publicPoint c config.childKey ∧
      ∀ req, Chain.tryFrom req.chain = some .ethereum → req.accountId = a →
        SignsWith sec1 config handler keyShare req := by
  obtain ⟨hmem, _⟩ := mem_of_lastRunFor hrun
  have hsharing : Sharing config keyShares := sharing_of_reachable sec1 hgen hpromises h _ hmem
  obtain ⟨ht, hn⟩ := validateConfig_ok.1 hsharing.valid
  have hlength := hsharing.length_eq
  have hlt : i < keyShares.length := by omega
  have hat : keyShares[i]? = some keyShares[i] := List.getElem?_eq_getElem hlt
  obtain ⟨m, hm⟩ := kept_of_reachable h i
  have hlookup : m.lookup a = some keyShares[i] :=
    (hm.lookup a).trans (lastShare_of_lastRunFor hrun hat)
  have hne := keys_ne_of_lookup hlookup
  obtain ⟨last, content, hlast, hcontent, hread⟩ := readAs_of_partyFiles hm.files hne
  refine ⟨last, content, m, ⟨m, hne⟩, keyShares[i], hlast, hcontent, hread, dif_neg hne,
    hsharing.numbered i _ hat, hsharing.key _ (List.getElem_mem hlt), ?_⟩
  rintro req hchain rfl
  exact signsWith_of_lookup sec1 hsharing hat hi hlookup hchain ha

theorem tinyDealer_promises : Promises tinyDealer where
  numbered := tinyDealer_numbered
  common n t secret keyShares h keyShare hmem other hmem' := by
    change (if h : _ then _ else _) = _ at h
    split at h
    · cases h
      obtain ⟨_, _, rfl⟩ := List.mem_map.1 hmem
      obtain ⟨_, _, rfl⟩ := List.mem_map.1 hmem'
      rfl
    · cases h

def childConfig : KeyGenConfig :=
  { accountConfig "alice" with childKey := List.replicate 31 0 ++ [1] }

theorem signs_for_child_key_alice : ∃ s,
    (keyGenRuns tinyJson (fun _ => tinyDealer) (isKeyOf tiny) "key_shares").Reachable s ∧
    SignedRun (tinyProtocol 1) 1 0 [] (tinyDigest 30) tinyGenShare tinySignature ∧
    ∃ last content m handler keyShare, lastRun s.runs 0 = some last ∧
      s.dir (last.outputFilename 0) = some content ∧
      ReadAs tinyJson (.text (plaintext content)) m ∧ ParticipantHandler.new m = .ok handler ∧
      keyShare.i.toNat = 0 ∧ keyShare.sharedPublicKey = publicPoint tiny childConfig.childKey ∧
      ∀ req, Chain.tryFrom req.chain = some .ethereum → req.accountId = "alice" →
        SignsWith tinySec1 childConfig handler keyShare req := by
  let keyShares := tinyShares 2 tiny.gen tinyGen_ne
  let alice : KeyShareDealer (KeyShare tiny) := ⟨childConfig, none, rfl⟩
  have hstart : (keyGenRuns tinyJson (fun _ => tinyDealer) (isKeyOf tiny) "key_shares").Reachable
      ⟨fun _ => none, []⟩ := .start ⟨fun _ => ⟨rfl, rfl⟩, rfl⟩
  have hdealt : alice.generateShares tinyDealer 31 =
      .ok { alice with keyShares := some keyShares } := rfl
  have hkey : KeyShareDealer.verifyPublicKey { alice with keyShares := some keyShares }
      (isKeyOf tiny) = .ok () := by
    have hfirst : keyShares[0]? = some tinyGenShare := rfl
    exact KeyShareDealer.verifyPublicKey_ok rfl hfirst (decide_eq_true rfl)
  have hempty : ∀ i < keyShares.length,
      ¬Blocked tinyJson.formats childConfig (fun _ => none) i :=
    fun i _ => not_blocked rfl rfl keyShares[0]
  obtain ⟨s, hs, hruns⟩ := keyGenRuns_next hstart rfl rfl hdealt hkey rfl hempty
  have hlast : lastRunFor s.runs "alice" = some (childConfig, keyShares) := by
    rw [hruns]
    rfl
  exact ⟨s, hs, tinyProtocol_run 1, signs_for_child_key tinySec1 tinyGen_ne
    (fun _ => tinyDealer_promises) hs hlast (by decide) (by decide)⟩

end WalletMpc.Wallet
