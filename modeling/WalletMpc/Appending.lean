import WalletMpc.Plaintext
import WalletMpc.Loaders

namespace WalletMpc.KeyGen
open Systems Proto Ecdsa Participant
set_option autoImplicit true

/-- The file that a run writes for a party. -/
def KeyGenConfig.outputFilename (config : KeyGenConfig) (i : Nat) : String :=
  match config.pubkeys with
  | none => baseFilename config.outputPrefix i
  | some _ => encryptedFilename config.outputPrefix i

theorem outputFilename_plain {config : KeyGenConfig} (h : config.pubkeys = none) :
    config.outputFilename i = baseFilename config.outputPrefix i := by
  rw [KeyGenConfig.outputFilename, h]

theorem outputFilename_encrypted {config : KeyGenConfig} (h : config.pubkeys = some pubkeys) :
    config.outputFilename i = encryptedFilename config.outputPrefix i := by
  rw [KeyGenConfig.outputFilename, h]

/-- The keys of age: what is encrypted to the recipient of a key is decrypted with the key. -/
structure AgeKeys (T R I : Type) where
  recipient : I → R
  decrypt : I → Content T R → Option T
  decrypt_age : ∀ key t, decrypt key (.age (recipient key) t) = some t

/-- The public key that a run got for the party, if it got any, is the one of this key. -/
def KeyGenConfig.HasKey (config : KeyGenConfig) (formats : Formats T R V) (age : AgeKeys T R I)
    (i : Nat) (key : I) : Prop :=
  ∀ pubkeys, config.pubkeys = some pubkeys →
    ∃ pubkey, pubkeys[i]? = some pubkey ∧ formats.recipient pubkey = .ok (age.recipient key)

section
variable {c : Curve} {json : SerdeJson c T R J}

/-- The shares in a file, decrypted first if it is encrypted. -/
def readShares (json : SerdeJson c T R J) (age : AgeKeys T R I) (key : I) :
    Content T R → Option (Accounts (KeyShare c))
  | .text t => (json.parseKeyShares t).toOption
  | .age r t => (age.decrypt key (.age r t)).bind fun t => (json.parseKeyShares t).toOption

/-- What a party reads with its key from the file last written for it, which is nothing before
its first share. -/
def ReadsBack (json : SerdeJson c T R J) (age : AgeKeys T R I) (s : DealtFiles T R (KeyShare c))
    (i : Nat) (m : Accounts (KeyShare c)) : Prop :=
  match lastRun s.runs i with
  | none => m = ∅
  | some config => ∃ content, s.dir (config.outputFilename i) = some content ∧
      ∀ key, config.HasKey json.formats age i key → readShares json age key content = some m

theorem PartyFiles.readsBack {s : DealtFiles T R (KeyShare c)} (age : AgeKeys T R I)
    (h : PartyFiles json p s.dir i m (lastRun s.runs i)) : ReadsBack json age s i m := by
  rw [ReadsBack]
  generalize lastRun s.runs i = last at h
  cases h with
  | fresh => rfl
  | plain hp hplain _ henc _ hb =>
    subst hp
    refine ⟨_, (congrArg s.dir (outputFilename_plain hplain)).trans hb, ?_⟩
    intro key _
    rw [readShares, json.parseKeyShares_print _ m _ henc]
    rfl
  | encrypted hp hpubkeys hk hr henc hage =>
    subst hp
    refine ⟨_, (congrArg s.dir (outputFilename_encrypted hpubkeys)).trans hage, ?_⟩
    intro key hkey
    obtain ⟨pubkey, hk', hr'⟩ := hkey _ hpubkeys
    cases hk.symm.trans hk'
    cases hr.symm.trans hr'
    rw [readShares, age.decrypt_age, Option.bind_some, json.parseKeyShares_print _ m _ henc]
    rfl

/-- The file last written for a party maps the accounts of all runs that dealt it a share to the
last of them, and a further run alters no account but its own. -/
theorem append_keeps {trusted : Nat → TrustedDealer (KeyShare c)} (age : AgeKeys T R I)
    (h : (keyGenRuns json trusted isKeyOf p).Reachable s) (i : Nat) :
    ∃ m, ReadsBack json age s i m ∧
      (∀ a, a ∈ m ↔ ∃ run ∈ s.runs, run.1.accountId = a ∧ i < run.1.nParties.toNat) ∧
      (∀ a, m.lookup a = lastShare s.runs a i) ∧
      ∀ config t, (keyGenRuns json trusted isKeyOf p).step s config t →
        ∃ m', ReadsBack json age t i m' ∧ ∀ a ≠ config.accountId, m'.lookup a = m.lookup a := by
  obtain ⟨m, hm⟩ := kept_of_reachable h i
  refine ⟨m, hm.files.readsBack age, ?_, hm.lookup, ?_⟩
  · intro a
    have hmem : a ∈ m ↔ ∃ keyShare, lastShare s.runs a i = some keyShare := by
      rw [Finmap.mem_iff, hm.lookup a]
    rw [hmem, lastShare_iff]
    apply exists_congr
    intro run
    apply and_congr_right
    intro hrun
    rw [hm.dealt run hrun]
  · intro config t hst
    obtain ⟨m', hm', hkept⟩ := kept_step hm hst
    exact ⟨m', hm'.files.readsBack age, hkept⟩

/-- A further run whose shares are dealt and verified returns Ok when no party is blocked. -/
theorem keyGenRuns_next {trusted : Nat → TrustedDealer (KeyShare c)}
    (h : (keyGenRuns json trusted isKeyOf p).Reachable s) (hp : config.outputPrefix = p)
    (hn : KeyShareDealer.new config = .ok dealer)
    (hg : dealer.generateShares (trusted s.runs.length) c.order = .ok dealt)
    (hv : dealt.verifyPublicKey isKeyOf = .ok ()) (hs : dealt.keyShares = some keyShares)
    (hfree : ∀ i < keyShares.length, ¬Blocked json.formats config s.dir i) :
    ∃ t, (keyGenRuns json trusted isKeyOf p).Reachable t ∧
      t.runs = s.runs ++ [(config, keyShares)] := by
  have hsave : ((dealt.encode json.toValue).saveToFiles json.formats id s.dir).2 = .ok () := by
    obtain ⟨_, dealtShares, _, rfl⟩ := KeyShareDealer.generateShares_ok hg
    cases hs
    change (saveFrom json.formats id dealer.config 0 (keyShares.map json.toValue) s.dir).2 = .ok ()
    rw [saveFrom_ok_iff, KeyShareDealer.new_ok hn, List.length_map]
    intro i hi
    rw [Nat.zero_add]
    exact hfree i hi
  let t : DealtFiles T R (KeyShare c) :=
    ⟨((dealt.encode json.toValue).saveToFiles json.formats id s.dir).1,
      s.runs ++ [(config, keyShares)]⟩
  exact ⟨t, h.next ⟨hp, dealer, dealt, keyShares, id, hn, hg, hv, hs, Prod.ext rfl hsave, rfl⟩, rfl⟩

end

/-- The formats of the small instance with recipients that are the public keys themselves. -/
noncomputable def tinyAgeJson : SerdeJson tiny Document String (KeyShare tiny) where
  formats := { tinyFormats with recipient := (mapFormats (V := Nat)).recipient }
  platform := tinyJson.platform
  reader := tinyJson.reader
  toValue := id
  parseKeyShares := tinyFormats.parse
  reader_dict := rfl
  parse_valueToString := tinyJson.parse_valueToString
  parseKeyShares_print := tinyJson.parseKeyShares_print

def tinyAge : AgeKeys Document String String where
  recipient key := "age1" ++ key
  decrypt key
    | .age recipient t => if recipient = "age1" ++ key then some t else none
    | .text _ => none
  decrypt_age _ _ := if_pos rfl

def bobConfig : KeyGenConfig :=
  { accountConfig "bob" with pubkeys := some ["age1bob", "age1carol"] }

noncomputable abbrev tinyAgeRuns : System (DealtFiles Document String (KeyShare tiny)) KeyGenConfig :=
  keyGenRuns tinyAgeJson (fun _ => tinyDealer) tinyIsKey "key_shares"

theorem tinyAgeJson_valid : ∀ pubkey ∈ ["age1bob", "age1carol"],
    ∃ recipient, tinyAgeJson.formats.recipient pubkey = .ok recipient := by
  intro pubkey hmem
  obtain rfl | rfl := List.mem_pair.1 hmem
  · exact ⟨_, rfl⟩
  · exact ⟨_, rfl⟩

/-- A plain run for alice and then an encrypted one for bob. -/
theorem tinyAgeRuns_mixed : ∃ s, tinyAgeRuns.Reachable s ∧ s.runs =
    [(accountConfig "alice", tinyShares 2 tinyKey tinyKey_ne),
      (bobConfig, tinyShares 2 tinyKey tinyKey_ne)] := by
  let keyShares := tinyShares 2 tinyKey tinyKey_ne
  let alice : KeyShareDealer (KeyShare tiny) := ⟨accountConfig "alice", none, rfl⟩
  let bob : KeyShareDealer (KeyShare tiny) := ⟨bobConfig, none, rfl⟩
  have hstart : tinyAgeRuns.Reachable ⟨fun _ => none, []⟩ := .start ⟨fun _ => ⟨rfl, rfl⟩, rfl⟩
  have halice : alice.generateShares tinyDealer 31 =
      .ok { alice with keyShares := some keyShares } := rfl
  have hbob : bob.generateShares tinyDealer 31 = .ok { bob with keyShares := some keyShares } := rfl
  have hempty : ∀ i < keyShares.length,
      ¬Blocked tinyAgeJson.formats (accountConfig "alice") (fun _ => none) i :=
    fun i _ => not_blocked rfl rfl keyShares[0]
  obtain ⟨s, hs, hruns⟩ := keyGenRuns_next hstart rfl rfl halice rfl rfl hempty
  have hfree : ∀ i < keyShares.length, ¬Blocked tinyAgeJson.formats bobConfig s.dir i := by
    intro i hi hb
    obtain ⟨m, hm⟩ := kept_of_reachable hs i
    rw [blocked_iff_existing rfl tinyAgeJson_valid hi keyShares[0]] at hb
    obtain ⟨message, he⟩ := hb
    have hplain : ∀ config, lastRun s.runs i = some config → config.pubkeys = none := by
      intro config hlast
      rw [hruns, lastRun_concat, if_pos hi] at hlast
      cases hlast
      rfl
    obtain ⟨accounts, hok⟩ := (hm.files.holds (hm.files.unencrypted hplain)).readable
    cases hok.symm.trans he
  obtain ⟨t, ht, hruns'⟩ := keyGenRuns_next hs rfl rfl hbob rfl rfl hfree
  rw [hruns] at hruns'
  exact ⟨t, ht, hruns'⟩

theorem append_keeps_bob : ∃ s, tinyAgeRuns.Reachable s ∧
    lastShare s.runs "alice" 0 = some ⟨0, tinyKey, tinyKey_ne⟩ ∧
    bobConfig.HasKey tinyAgeJson.formats tinyAge 0 "bob" ∧
    ∃ m, ReadsBack tinyAgeJson tinyAge s 0 m ∧
      (∀ a, a ∈ m ↔ ∃ run ∈ s.runs, run.1.accountId = a ∧ 0 < run.1.nParties.toNat) ∧
      (∀ a, m.lookup a = lastShare s.runs a 0) ∧
      ∀ config t, tinyAgeRuns.step s config t → ∃ m', ReadsBack tinyAgeJson tinyAge t 0 m' ∧
        ∀ a ≠ config.accountId, m'.lookup a = m.lookup a := by
  obtain ⟨s, hs, hruns⟩ := tinyAgeRuns_mixed
  have hlast : lastShare s.runs "alice" 0 = some ⟨0, tinyKey, tinyKey_ne⟩ := by
    rw [hruns]
    rfl
  have hkey : bobConfig.HasKey tinyAgeJson.formats tinyAge 0 "bob" := by
    intro pubkeys hpubkeys
    cases hpubkeys
    exact ⟨"age1bob", rfl, rfl⟩
  exact ⟨s, hs, hlast, hkey, append_keeps tinyAge hs 0⟩

end WalletMpc.KeyGen
