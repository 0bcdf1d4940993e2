import WalletMpc.ShareFiles

namespace WalletMpc.KeyGen
open Proto
set_option autoImplicit true

section
variable {formats : Formats T R V} {config : KeyGenConfig} {dir dir' : Dir T R}

/-- The `.age` file of every party holds its share and those merged from before, encrypted to
its recipient, and the plain file holds none. -/
structure Sealed (formats : Formats T R V) (config : KeyGenConfig) (pubkeys : List String)
    (keyShares : List V) (dir dir' : Dir T R) : Prop where
  encrypted : ∀ i keyShare, keyShares[i]? = some keyShare →
    ∃ pubkey recipient t allAccounts, pubkeys[i]? = some pubkey ∧
      formats.recipient pubkey = .ok recipient ∧
      dir' (encryptedFilename config.outputPrefix i) = some (.age recipient t) ∧
      existingAccounts formats config.outputPrefix dir i = .ok allAccounts ∧
      formats.parse t = .ok (allAccounts.insert config.accountId keyShare)
  noPlain : ∀ i < keyShares.length, ∀ a keyShare,
    ¬Stored formats config.outputPrefix dir' a i keyShare

theorem Stored.congr (h : dir' (baseFilename p i) = dir (baseFilename p i)) :
    Stored formats p dir' a i keyShare ↔ Stored formats p dir a i keyShare := by
  rw [Stored, Stored]
  rw [h]

/-- What a save with public keys does for one party: its `.age` file is new, its plain file is
what it was. -/
theorem saveFrom_encrypted (hp : config.pubkeys = some pubkeys)
    (h : saveFrom formats order config 0 keyShares dir = (dir', .ok ()))
    (hi : keyShares[i]? = some keyShare) : ∃ pubkey recipient allAccounts,
      pubkeys[i]? = some pubkey ∧ formats.recipient pubkey = .ok recipient ∧
      existingAccounts formats config.outputPrefix dir i = .ok allAccounts ∧
      dir' (encryptedFilename config.outputPrefix i) = some (.age recipient
        (formats.print (order i) (allAccounts.insert config.accountId keyShare))) ∧
      dir' (baseFilename config.outputPrefix i) = dir (baseFilename config.outputPrefix i) := by
  obtain ⟨file, content, hw, hwritten, hother⟩ := saveFrom_party h hi
  rw [Nat.zero_add] at hw hother
  obtain ⟨_, allAccounts, hall, ⟨hplain, _⟩ | ⟨_, pubkey, recipient, hp', hk, hr, rfl, rfl⟩⟩ :=
    partyFile_ok hw
  · cases hp.symm.trans hplain
  · cases hp.symm.trans hp'
    exact ⟨pubkey, recipient, allAccounts, hk, hr, hall, hwritten,
      hother _ (.inl rfl) (baseFilename_ne_encryptedFilename _ i i)⟩

theorem sealed_of_saveFrom (hp : config.pubkeys = some pubkeys)
    (h : saveFrom formats order config 0 keyShares dir = (dir', .ok ())) :
    Sealed formats config pubkeys keyShares dir dir' ↔
      ∀ i < keyShares.length, ∀ a keyShare,
        ¬Stored formats config.outputPrefix dir a i keyShare := by
  have hsame : ∀ {i a keyShare}, i < keyShares.length →
      (Stored formats config.outputPrefix dir' a i keyShare ↔
        Stored formats config.outputPrefix dir a i keyShare) := by
    intro i a keyShare hi
    obtain ⟨_, _, _, _, _, _, _, hbase⟩ :=
      saveFrom_encrypted hp h (List.getElem?_eq_getElem hi)
    exact Stored.congr hbase
  apply Iff.intro
  · intro hs i hi a keyShare hold
    exact hs.noPlain i hi a keyShare ((hsame hi).2 hold)
  · intro hnone
    constructor
    case encrypted =>
      intro i keyShare hi
      obtain ⟨pubkey, recipient, allAccounts, hk, hr, hall, hage, _⟩ :=
        saveFrom_encrypted hp h hi
      exact ⟨pubkey, recipient, _, allAccounts, hk, hr, hage, hall, formats.parse_print _ _⟩
    case noPlain =>
      intro i hi a keyShare hnew
      exact hnone i hi a keyShare ((hsame hi).1 hnew)

/-- With a valid key for every party only its files can block it. -/
theorem blocked_iff_existing (hp : config.pubkeys = some pubkeys)
    (hvalid : ∀ pubkey ∈ pubkeys, ∃ recipient, formats.recipient pubkey = .ok recipient)
    (hi : i < pubkeys.length) (keyShare : V) : Blocked formats config dir i ↔
      ∃ message, existingAccounts formats config.outputPrefix dir i = .error message := by
  apply Iff.intro
  · intro hb
    cases hex : existingAccounts formats config.outputPrefix dir i with
    | error message => exact ⟨message, rfl⟩
    | ok allAccounts =>
      obtain ⟨recipient, hr⟩ := hvalid _ (List.getElem_mem hi)
      have hw : partyFile formats id config dir i keyShare =
          .ok (encryptedFilename config.outputPrefix i, .age recipient
            (formats.print i (allAccounts.insert config.accountId keyShare))) := by
        rw [partyFile]
        rw [hex, hp]
        dsimp only
        rw [List.getElem?_eq_getElem hi]
        dsimp only
        rw [hr]
        rfl
      exact absurd hw hb.not_ok
  · intro he
    obtain ⟨message, he⟩ := he
    exact existingAccounts_error he

end

/-- Encrypted saving leaves no plain share behind just when it fails or finds none. -/
theorem sealed_iff {trusted : TrustedDealer V} {dealer dealer' : KeyShareDealer V}
    (formats : Formats T R V) (order : Nat → Nat) (dir : Dir T R)
    (hg : dealer.generateShares trusted groupOrder = .ok dealer')
    (hs : dealer'.keyShares = some keyShares) (hp : dealer.config.pubkeys = some pubkeys)
    (hn : pubkeys.length = dealer.config.nParties.toNat)
    (hvalid : ∀ pubkey ∈ pubkeys, ∃ recipient, formats.recipient pubkey = .ok recipient) :
    (∀ dir', dealer'.saveToFiles formats order dir = (dir', .ok ()) →
        Sealed formats dealer.config pubkeys keyShares dir dir') ↔
      (∃ i < dealer.config.nParties.toNat, ∃ message,
        existingAccounts formats dealer.config.outputPrefix dir i = .error message) ∨
      ∀ i < dealer.config.nParties.toNat, ∀ a keyShare,
        ¬Stored formats dealer.config.outputPrefix dir a i keyShare := by
  obtain ⟨secret, dealt, hdealt, rfl⟩ := KeyShareDealer.generateShares_ok hg
  cases hs
  have hlength := trusted.length_eq hdealt
  have hsave : KeyShareDealer.saveToFiles { dealer with keyShares := some keyShares } formats order
      dir = saveFrom formats order dealer.config 0 keyShares dir := rfl
  have hok := saveFrom_ok_iff formats order dealer.config 0 keyShares dir
  rw [← hlength, hsave]
  apply Iff.intro
  · intro h
    by_cases hE : ∃ i < keyShares.length, ∃ message,
        existingAccounts formats dealer.config.outputPrefix dir i = .error message
    · exact .inl hE
    · have hreturned : (saveFrom formats order dealer.config 0 keyShares dir).2 = .ok () := by
        apply hok.2
        intro i hi hb
        rw [Nat.zero_add, blocked_iff_existing hp hvalid (by omega) keyShares[i]] at hb
        exact hE ⟨i, hi, hb⟩
      have hrun : saveFrom formats order dealer.config 0 keyShares dir =
          ((saveFrom formats order dealer.config 0 keyShares dir).1, .ok ()) :=
        Prod.ext rfl hreturned
      exact .inr ((sealed_of_saveFrom hp hrun).1 (h _ hrun))
  · intro h dir' hrun
    obtain ⟨i, hi, message, he⟩ | hnone := h
    · have hfree := hok.1 (congrArg Prod.snd hrun) i hi
      rw [Nat.zero_add] at hfree
      exact absurd (existingAccounts_error he) hfree
    · exact (sealed_of_saveFrom hp hrun).2 hnone

def encryptedDealer : KeyShareDealer Nat where
  config := ⟨2, 2, "bob", List.replicate 31 0 ++ [5], "key_shares", some ["age1bob", "age1carol"]⟩
  keyShares := none
  valid := rfl

/-- One share for each party, which is the number of the party. -/
def countingDealer : TrustedDealer Nat where
  generate n _ _ := .ok (List.range n.toNat)
  length_eq := by
    intro n t secret shares h
    cases h
    exact List.length_range

theorem encryptedDealer_valid : ∀ pubkey ∈ ["age1bob", "age1carol"],
    ∃ recipient, (mapFormats (V := Nat)).recipient pubkey = .ok recipient := by
  intro pubkey hmem
  obtain rfl | rfl := List.mem_pair.1 hmem
  · exact ⟨_, rfl⟩
  · exact ⟨_, rfl⟩

/-- The dealer saves to files that can be read. -/
theorem encryptedDealer_saves {dir : Dir (Option (Accounts Nat)) String}
    (h : ∀ i message, existingAccounts mapFormats "key_shares" dir i ≠ .error message) :
    ∃ dir', saveFrom mapFormats id encryptedDealer.config 0 [0, 1] dir = (dir', .ok ()) := by
  have hfree : ∀ i < 2, ¬Blocked mapFormats encryptedDealer.config dir (0 + i) := by
    intro i hi hb
    rw [Nat.zero_add, blocked_iff_existing rfl encryptedDealer_valid hi 0] at hb
    obtain ⟨message, he⟩ := hb
    exact h i message he
  exact ⟨_, Prod.ext rfl ((saveFrom_ok_iff ..).2 hfree)⟩

theorem sealed_fresh : ∃ dir', KeyShareDealer.saveToFiles
    { encryptedDealer with keyShares := some [0, 1] } mapFormats id (fun _ => none) =
      (dir', .ok ()) ∧
    Sealed mapFormats encryptedDealer.config ["age1bob", "age1carol"] [0, 1] (fun _ => none) dir' := by
  have hg : encryptedDealer.generateShares countingDealer 31 =
      .ok { encryptedDealer with keyShares := some [0, 1] } := rfl
  have hreadable : ∀ i message, existingAccounts (mapFormats (V := Nat)) "key_shares"
      (fun _ => none) i ≠ .error message := by
    intro i message h
    cases h
  obtain ⟨dir', hrun⟩ := encryptedDealer_saves hreadable
  exists dir', hrun
  refine (sealed_iff mapFormats id (fun _ => none) hg rfl rfl rfl encryptedDealer_valid).2 ?_ _ hrun
  apply Or.inr
  intro i _ a keyShare hstored
  obtain ⟨_, _, hnone, _⟩ := hstored
  cases hnone

/-- The plain file of the first party after a plain run for alice, and nothing else. -/
def aliceInPlain : Dir (Option (Accounts Nat)) String :=
  Function.update (fun _ => none) (baseFilename "key_shares" 0)
    (some (.text (some ((∅ : Accounts Nat).insert "alice" 10))))

theorem aliceInPlain_existing (i : Nat) :
    existingAccounts mapFormats "key_shares" aliceInPlain i ≠ .error message := by
  have hother : ∀ file, file ≠ baseFilename "key_shares" 0 → aliceInPlain file = none :=
    fun file hne => Function.update_of_ne hne _ _
  rw [existingAccounts]
  rw [hother _ (baseFilename_ne_encryptedFilename _ 0 i).symm]
  cases i with
  | zero =>
    rw [aliceInPlain, Function.update_self]
    intro h
    cases h
  | succ i =>
    rw [hother _ fun heq => Nat.succ_ne_zero i (baseFilename_inj.1 heq)]
    intro h
    cases h

/-- The share of alice is merged into the encrypted file, and the plain file keeps it. -/
theorem plaintext_left_behind :
    encryptedDealer.generateShares countingDealer 31 =
      .ok { encryptedDealer with keyShares := some [0, 1] } ∧
    ∃ dir', KeyShareDealer.saveToFiles { encryptedDealer with keyShares := some [0, 1] } mapFormats
        id aliceInPlain = (dir', .ok ()) ∧
      Stored mapFormats "key_shares" dir' "alice" 0 10 ∧
      ¬Sealed mapFormats encryptedDealer.config ["age1bob", "age1carol"] [0, 1] aliceInPlain dir' := by
  have halice : Stored mapFormats "key_shares" aliceInPlain "alice" 0 10 :=
    ⟨_, _, Function.update_self .., rfl, Finmap.lookup_insert _⟩
  obtain ⟨dir', hrun⟩ := encryptedDealer_saves fun _ _ => aliceInPlain_existing _
  obtain ⟨_, _, _, _, _, _, _, hbase⟩ := saveFrom_encrypted (i := 0) rfl hrun rfl
  refine ⟨rfl, _, hrun, (Stored.congr hbase).2 halice, ?_⟩
  intro hs
  exact (sealed_of_saveFrom rfl hrun).1 hs 0 (by decide) "alice" 10 halice

end WalletMpc.KeyGen
